import ControllerUniffi.Text.Trim
import ControllerUniffi.Url.Plain
import ControllerUniffi.Url.Query

/-!
# Texts behind a URL

What the parser makes of a text with a slash and more put behind it.  The whitespace and the scheme do not change
(`preprocess_append`, `splitScheme_append`).  Inside the path, the segments read so far are kept and the rest is read
behind them (`parsePath_append`): `pathBehind` is where the path stands when a slash follows.
-/

namespace Whatwg

open Text

/-! ### Whitespace -/

/-- A text as it is read when more follows it: only leading C0 controls and spaces are dropped. -/
def strip (s : List Char) : List Char := (s.dropWhile isC0OrSpace).filter (! isTabOrNewline ·)

theorem dropWhile_append_cons {p : Char → Bool} {c : Char} (hc : p c = false) (s t : List Char) :
    (s ++ c :: t).dropWhile p = s.dropWhile p ++ c :: t := by
  induction s with
  | nil => rw [List.nil_append, List.dropWhile_cons_of_neg (by simp [hc])]; rfl
  | cons d s ih =>
    rw [List.cons_append, List.dropWhile_cons, List.dropWhile_cons, ih]
    split <;> rfl

theorem takeWhile_append_cons {p : Char → Bool} {c : Char} (hc : p c = false) (s t : List Char) :
    (s ++ c :: t).takeWhile p = s.takeWhile p := by
  induction s with
  | nil => rw [List.nil_append, List.takeWhile_cons_of_neg (by simp [hc])]; rfl
  | cons d s ih => rw [List.cons_append, List.takeWhile_cons, List.takeWhile_cons, ih]

theorem cut_of_head {p : Char → Bool} {s : List Char} (h : ∀ c, s.head? = some c → p c = false) :
    s.takeWhile p = [] ∧ s.dropWhile p = s := by
  cases s with
  | nil => exact ⟨rfl, rfl⟩
  | cons c s =>
    rw [List.takeWhile_cons, List.dropWhile_cons, h c rfl]
    exact ⟨rfl, rfl⟩

/-- A text is cut at its first character in a class. -/
theorem exists_cut (p : Char → Bool) (s : List Char) : ∃ before after, s = before ++ after ∧
    (∀ c ∈ before, p c = false) ∧ ∀ c, after.head? = some c → p c = true := by
  refine ⟨s.takeWhile (! p ·), s.dropWhile (! p ·), List.takeWhile_append_dropWhile.symm,
    fun c hc => by simpa using List.mem_takeWhile_imp hc, fun c hc => ?_⟩
  have hhead := List.head?_dropWhile_not (! p ·) s
  rw [hc] at hhead
  simpa using hhead

theorem isC0OrSpace_of_isTabOrNewline {c : Char} (h : isTabOrNewline c = true) : isC0OrSpace c = true := by
  simp only [isTabOrNewline, Bool.or_eq_true, decide_eq_true_eq] at h
  rcases h with (rfl | rfl) | rfl <;> decide

private theorem filter_of_not_space {t : List Char} (ht : ∀ c ∈ t, isC0OrSpace c = false) :
    t.filter (! isTabOrNewline ·) = t := by
  rw [List.filter_eq_self]
  intro c hc
  cases h : isTabOrNewline c with
  | false => rfl
  | true =>
    have hspace := ht c hc
    rw [isC0OrSpace_of_isTabOrNewline h] at hspace
    cases hspace

section

variable {s t : List Char}

private theorem dropWhile_append_of_not_space (ht : ∀ c ∈ t, isC0OrSpace c = false) :
    (s ++ t).dropWhile isC0OrSpace = s.dropWhile isC0OrSpace ++ t := by
  cases t with
  | nil => rw [List.append_nil, List.append_nil]
  | cons c t => exact dropWhile_append_cons (ht c List.mem_cons_self) s t

theorem strip_append (ht : ∀ c ∈ t, isC0OrSpace c = false) : strip (s ++ t) = strip s ++ t := by
  rw [strip, dropWhile_append_of_not_space ht, List.filter_append, filter_of_not_space ht, strip]

theorem preprocess_append (hne : t ≠ []) (ht : ∀ c ∈ t, isC0OrSpace c = false) :
    preprocess (s ++ t) = strip s ++ t := by
  have hend : endsIn isC0OrSpace (s.dropWhile isC0OrSpace ++ t) = false := by
    rw [endsIn_append hne, endsIn_eq_false_of_forall ht]
  rw [preprocess, dropWhile_append_of_not_space ht, rdropWhile_eq_self hend, List.filter_append,
    filter_of_not_space ht, strip]

/-- Where nothing follows, trailing C0 controls and spaces are dropped as well. -/
theorem exists_strip_eq (s : List Char) : ∃ spaces, strip s = preprocess s ++ spaces ∧
    ∀ c ∈ spaces, isC0OrSpace c = true := by
  refine ⟨((s.dropWhile isC0OrSpace).rtakeWhile isC0OrSpace).filter (! isTabOrNewline ·), ?_, ?_⟩
  · rw [preprocess, ← List.filter_append, List.rdropWhile_append_rtakeWhile, strip]
  · intro c hc
    exact List.mem_rtakeWhile_imp (List.mem_of_mem_filter hc)

/-- The spaces that are dropped stand behind the last character that is none. -/
theorem preprocess_of_strip {x y : List Char} {c : Char} (h : strip s = x ++ c :: y) (hc : isC0OrSpace c = false) :
    ∃ y' spaces, preprocess s = x ++ c :: y' ∧ y = y' ++ spaces ∧ ∀ c ∈ spaces, isC0OrSpace c = true := by
  obtain ⟨spaces, hspaces, hall⟩ := exists_strip_eq s
  rw [h] at hspaces
  rcases List.append_eq_append_iff.1 hspaces with ⟨z, hz, hy⟩ | ⟨z, hz, hy⟩
  · cases z with
    | nil =>
      have hspace := hall c (List.nil_append spaces ▸ hy ▸ List.mem_cons_self)
      rw [hc] at hspace
      cases hspace
    | cons d z =>
      obtain ⟨rfl, rfl⟩ := List.cons.inj hy
      exact ⟨z, spaces, hz, rfl, hall⟩
  · have hspace := hall c (by simp [hy])
    rw [hc] at hspace
    cases hspace

theorem preprocess_eq_strip (h : endsIn isC0OrSpace (strip s) = false) : preprocess s = strip s := by
  obtain ⟨spaces, hspaces, hall⟩ := exists_strip_eq s
  by_cases hne : spaces = []
  · rw [hspaces, hne, List.append_nil]
  · rw [hspaces, endsIn_append hne, endsIn_of_forall hne hall] at h
    cases h

theorem endsIn_preprocess (s : List Char) : endsIn isC0OrSpace (preprocess s) = false := by
  unfold preprocess
  rcases List.eq_nil_or_concat ((s.dropWhile isC0OrSpace).rdropWhile isC0OrSpace) with hnil | ⟨t, c, hconcat⟩
  · rw [hnil]
    rfl
  · have hlast := List.rdropWhile_last_not isC0OrSpace (s.dropWhile isC0OrSpace) (by simp [hconcat])
    have hc : isC0OrSpace c = false := by simpa [hconcat] using hlast
    rw [hconcat, List.concat_eq_append, List.filter_append, filter_of_not_space (t := [c]) (by simpa using hc),
      endsIn_concat, hc]

end

/-! ### The scheme -/

theorem isSchemeChar_space {c : Char} (hc : isC0OrSpace c = true) : isSchemeChar c = false := by
  cases h : isSchemeChar c with
  | false => rfl
  | true =>
    simp only [isSchemeChar, Bool.or_eq_true, decide_eq_true_eq] at h
    rcases h with ((halpha | rfl) | rfl) | rfl
    · rw [(isPlainChar_ne (isPlainChar_of_isAlphanum halpha)).1] at hc
      cases hc
    all_goals cases hc

theorem splitScheme_append {c : Char} (hc : isSchemeChar c = false) (hcolon : c ≠ ':') (s t : List Char) :
    splitScheme (s ++ c :: t) = (splitScheme s).map fun r => (r.1, r.2 ++ c :: t) := by
  cases s with
  | nil =>
    have halpha : c.isAlpha = false := by
      simp only [isSchemeChar, Char.isAlphanum, Bool.or_eq_false_iff] at hc
      exact hc.1.1.1.1
    simp [splitScheme, halpha]
  | cons d s =>
    have hdrop := dropWhile_append_cons hc (d :: s) t
    have htake := takeWhile_append_cons hc (d :: s) t
    rw [List.cons_append] at hdrop htake ⊢
    by_cases hd : d.isAlpha = true
    · simp only [splitScheme, hd, ↓reduceIte, hdrop, htake]
      cases (d :: s).dropWhile isSchemeChar with
      | nil =>
        split
        · rename_i heq
          exact absurd (List.cons.inj heq).1 hcolon
        · rfl
      | cons e r =>
        by_cases he : e = ':'
        · subst he
          rfl
        · simp [he]
    · simp [splitScheme, hd]

theorem splitScheme_append_slash (s t : List Char) :
    splitScheme (s ++ '/' :: t) = (splitScheme s).map fun r => (r.1, r.2 ++ '/' :: t) :=
  splitScheme_append (by decide) (by decide) s t

theorem splitScheme_preprocess_append {t : List Char} (ht : ∀ c ∈ '/' :: t, isC0OrSpace c = false) (s : List Char) :
    splitScheme (preprocess (s ++ '/' :: t)) = (splitScheme (strip s)).map fun r => (r.1, r.2 ++ '/' :: t) := by
  rw [preprocess_append (by simp) ht, splitScheme_append_slash]

/-! ### The parts of a URL -/

def Url.SameOrigin (u v : Url) : Prop :=
  u.scheme = v.scheme ∧ u.hostText = v.hostText ∧ u.authority.port = v.authority.port

section

variable {hostParser : HostParser} {s : List Char} {u : Url}

theorem parse_eq_some_iff : parse hostParser s = some u ↔
    ∃ rest, splitScheme (preprocess s) = some (u.scheme, rest) ∧
      parseHierarchy hostParser u.scheme (rest.takeWhile fun c => c ≠ '?' ∧ c ≠ '#') = some (u.authority, u.path) ∧
      u.query = (queryText rest).map (percentEncode (if isSpecial u.scheme then specialQuerySet else querySet)) ∧
      u.fragment = (fragmentText rest).map (percentEncode fragmentSet) := by
  unfold parse
  constructor
  · intro h
    split at h
    · cases h
    rename_i scheme rest hscheme
    obtain ⟨⟨authority, path⟩, hpath, rfl⟩ := Option.map_eq_some_iff.1 h
    exact ⟨rest, hscheme, hpath, rfl, rfl⟩
  · rintro ⟨rest, hscheme, hpath, hquery, hfragment⟩
    obtain ⟨scheme, authority, path, query, fragment⟩ := u
    dsimp only at hscheme hpath hquery hfragment
    simp only [hscheme, hpath, hquery, hfragment, Option.map_some]

theorem takeWhile_of_clean {rest : List Char} (h : Clean rest) : rest.takeWhile (fun c => c ≠ '?' ∧ c ≠ '#') = rest :=
  List.takeWhile_eq_self_iff.2 fun c hc => decide_eq_true (h c hc)

/-- Behind the first `?` or `#`, nothing belongs to the path. -/
theorem takeWhile_append_of_not_clean {rest : List Char} (h : ¬ Clean rest) (t : List Char) :
    (rest ++ t).takeWhile (fun c => c ≠ '?' ∧ c ≠ '#') = rest.takeWhile (fun c => c ≠ '?' ∧ c ≠ '#') := by
  rw [List.takeWhile_append, if_neg]
  intro hlen
  have hself := (List.takeWhile_prefix (fun c => decide (c ≠ '?' ∧ c ≠ '#'))).eq_of_length hlen
  exact h fun c hc => by simpa using List.takeWhile_eq_self_iff.1 hself c hc

theorem exists_parse {scheme rest : List Char} {a : Authority} {path : Path}
    (hscheme : splitScheme (preprocess s) = some (scheme, rest))
    (hpath : parseHierarchy hostParser scheme (rest.takeWhile fun c => c ≠ '?' ∧ c ≠ '#') = some (a, path)) :
    ∃ u, parse hostParser s = some u ∧ u.scheme = scheme ∧ u.authority = a ∧ u.path = path := by
  unfold parse
  simp only [hscheme, hpath, Option.map_some]
  exact ⟨_, rfl, rfl, rfl, rfl⟩

theorem queryText_eq_none {rest : List Char} (h : Clean rest) : queryText rest = none := by
  rw [queryText, List.dropWhile_eq_nil_iff.2 fun c hc => decide_eq_true (h c hc)]

theorem fragmentText_eq_none {rest : List Char} (h : '#' ∉ rest) : fragmentText rest = none := by
  rw [fragmentText, List.dropWhile_eq_nil_iff.2 fun c hc => decide_eq_true (by rintro rfl; exact h hc)]

/-- A cut at the first character outside `p` is at such a character. -/
private theorem of_dropWhile_eq_cons {p : Char → Bool} {l r : List Char} {c : Char} (h : l.dropWhile p = c :: r) :
    p c = false := by
  have := List.head?_dropWhile_not p l
  simpa [h] using this

private theorem exists_dropWhile_eq_cons {p : Char → Bool} {l : List Char} {c : Char} (hc : c ∈ l) (hp : p c = false) :
    ∃ d r, l.dropWhile p = d :: r := by
  cases hdrop : l.dropWhile p with
  | nil =>
    have := List.dropWhile_eq_nil_iff.1 hdrop c hc
    rw [hp] at this
    cases this
  | cons d r => exact ⟨d, r, rfl⟩

theorem fragmentText_ne_none {rest : List Char} (h : '#' ∈ rest) : fragmentText rest ≠ none := by
  obtain ⟨c, r, hdrop⟩ := exists_dropWhile_eq_cons (p := (· ≠ '#')) h (by decide)
  obtain rfl : c = '#' := by simpa using of_dropWhile_eq_cons hdrop
  rw [fragmentText, hdrop]
  intro hnone
  cases hnone

/-- Without a query and a fragment, no character starts one. -/
theorem clean_iff {rest : List Char} : queryText rest = none ∧ fragmentText rest = none ↔ Clean rest := by
  constructor
  · rintro ⟨hquery, hfragment⟩
    have hmark : '#' ∉ rest := fun h => fragmentText_ne_none h hfragment
    have hquestion : '?' ∉ rest := by
      intro h
      obtain ⟨c, r, hdrop⟩ := exists_dropWhile_eq_cons (p := fun c => c ≠ '?' ∧ c ≠ '#') h (by decide)
      have hc := of_dropWhile_eq_cons hdrop
      have hmem : c ∈ rest := (List.dropWhile_suffix _).subset (hdrop ▸ List.mem_cons_self)
      obtain rfl : c = '?' := by
        by_contra hne
        obtain rfl : c = '#' := by simpa [hne] using hc
        exact hmark hmem
      rw [queryText, hdrop] at hquery
      cases hquery
    exact fun c hc => ⟨by rintro rfl; exact hquestion hc, by rintro rfl; exact hmark hc⟩
  · intro h
    exact ⟨queryText_eq_none h, fragmentText_eq_none fun hmem => (h '#' hmem).2 rfl⟩

end

/-! ### Paths -/

/-- The path after segments that a slash follows. -/
def enterSegments (file : Bool) (path segs : List (List Char)) : List (List Char) :=
  segs.foldl (fun path seg => pushSegment file false path (percentEncode pathSet seg)) path

/-- The path read from `text`, when a slash follows. -/
def pathBehind (scheme text : List Char) : List (List Char) :=
  enterSegments (scheme = "file".toList) [] (text.splitOnP (isSlash (isSpecial scheme)))

theorem pushSegments_append (file : Bool) {rest : List (List Char)} (hne : rest ≠ []) (segs path : List (List Char)) :
    pushSegments file path (segs ++ rest) = pushSegments file (enterSegments file path segs) rest := by
  induction segs generalizing path with
  | nil => rfl
  | cons seg segs ih =>
    rw [List.cons_append, pushSegments, ih, enterSegments, enterSegments, List.foldl_cons]
    intro h
    exact hne (List.append_eq_nil_iff.1 h).2

/-- What follows a slash is read behind the segments before it. -/
theorem parsePath_append (scheme q t : List Char) :
    parsePath scheme (q ++ '/' :: t) =
      pushSegments (scheme = "file".toList) (pathBehind scheme q) (t.splitOnP (isSlash (isSpecial scheme))) := by
  rw [parsePath, List.splitOnP_append_cons q t (by simp [isSlash]), pushSegments_append _ (List.splitOnP_ne_nil _ _),
    pathBehind]

theorem parsePath_append_plain {seg : List Char} {segs : List (List Char)}
    (h : ∀ s ∈ seg :: segs, ∀ c ∈ s, c.isAlphanum = true) (scheme q : List Char) :
    parsePath scheme (q ++ (seg :: segs).flatMap ('/' :: ·)) = pathBehind scheme q ++ seg :: segs := by
  rw [List.flatMap_cons, List.cons_append, parsePath_append, splitOnP_segments h, pushSegments_plain h]

theorem Path.text_append (l l' : List (List Char)) :
    (Path.segments (l ++ l')).text = (Path.segments l).text ++ (Path.segments l').text :=
  List.flatMap_append

/-- The text of empty segments. -/
theorem flatMap_replicate_nil (n : Nat) :
    (List.replicate n ([] : List Char)).flatMap ('/' :: ·) = List.replicate n '/' := by
  induction n with
  | zero => rfl
  | succ n ih => rw [List.replicate_succ, List.flatMap_cons, ih, List.replicate_succ]; rfl

/-- The segment at the end of a text can be read on. -/
theorem exists_lastSegment (p : Char → Bool) (q : List Char) :
    ∃ init seg, seg <:+ q ∧ (∀ c ∈ seg, p c = false) ∧ (seg = [] → q = [] ∨ endsIn p q = true) ∧
      ∀ t : List Char, (∀ c ∈ t, p c = false) → (q ++ t).splitOnP p = init ++ [seg ++ t] := by
  have hseg : ∀ c ∈ q.rtakeWhile (! p ·), p c = false := fun c hc => by simpa using List.mem_rtakeWhile_imp hc
  have hq : q.rdropWhile (! p ·) ++ q.rtakeWhile (! p ·) = q := List.rdropWhile_append_rtakeWhile
  have hread : ∀ t : List Char, (∀ c ∈ t, p c = false) → ∀ c ∈ q.rtakeWhile (! p ·) ++ t, p c = false :=
    fun t ht c hc => (List.mem_append.1 hc).elim (hseg c) (ht c)
  rcases List.eq_nil_or_concat (q.rdropWhile (! p ·)) with hnil | ⟨r, c, hconcat⟩
  · rw [hnil, List.nil_append] at hq
    refine ⟨[], q.rtakeWhile (! p ·), List.rtakeWhile_suffix _ _, hseg, fun h => .inl (by rw [← hq, h]), fun t ht => ?_⟩
    conv_lhs => rw [← hq]
    exact List.splitOnP_eq_singleton (hread t ht)
  · rw [List.concat_eq_append] at hconcat
    have hc : p c = true := by
      have := List.rdropWhile_last_not (! p ·) q (by simp [hconcat])
      simpa [hconcat] using this
    refine ⟨r.splitOnP p, q.rtakeWhile (! p ·), List.rtakeWhile_suffix _ _, hseg, fun h => .inr ?_, fun t ht => ?_⟩
    · rw [← hq, h, List.append_nil, hconcat, endsIn_concat, hc]
    · conv_lhs => rw [← hq, hconcat, List.append_assoc, List.append_assoc, List.singleton_append]
      rw [List.splitOnP_append_cons r _ hc, List.splitOnP_eq_singleton (hread t ht)]

/-- At the end of the path, a dot segment leaves an empty segment behind. -/
theorem pushSegment_last (file : Bool) (path : List (List Char)) (seg : List Char) :
    pushSegment file true path seg =
      pushSegment file false path seg ++ if isDoubleDot seg = true ∨ isSingleDot seg = true then [[]] else [] := by
  unfold pushSegment
  by_cases hdouble : isDoubleDot seg = true
  · simp [hdouble]
  by_cases hsingle : isSingleDot seg = true
  · simp [hdouble, hsingle]
  · simp [hdouble, hsingle]

section

variable {scheme q seg : List Char} {init : List (List Char)}

theorem pathBehind_of_splitOnP (h : q.splitOnP (isSlash (isSpecial scheme)) = init ++ [seg]) :
    pathBehind scheme q = pushSegment (scheme = "file".toList) false
      (enterSegments (scheme = "file".toList) [] init) (percentEncode pathSet seg) := by
  rw [pathBehind, h, enterSegments, List.foldl_append, List.foldl_cons, List.foldl_nil, enterSegments]

theorem parsePath_of_splitOnP (h : q.splitOnP (isSlash (isSpecial scheme)) = init ++ [seg]) :
    parsePath scheme q = pushSegment (scheme = "file".toList) true
      (enterSegments (scheme = "file".toList) [] init) (percentEncode pathSet seg) := by
  rw [parsePath, h, pushSegments_append _ (by simp), pushSegments]

end

/-- A segment with something in it leaves no slash at the end, unless it is a dot segment. -/
private theorem endsIn_pushSegment {file : Bool} {path : List (List Char)} {seg : List Char} (hne : seg ≠ [])
    (hslash : '/' ∉ seg) (hdouble : isDoubleDot seg = false) (hsingle : isSingleDot seg = false) :
    endsIn (· = '/') (Path.segments (pushSegment file false path seg)).text = false := by
  have hend : endsIn (· = '/') seg = false :=
    endsIn_eq_false_of_forall fun c hc => decide_eq_false (by rintro rfl; exact hslash hc)
  unfold pushSegment
  simp only [hdouble, hsingle, Bool.false_eq_true, ↓reduceIte]
  split
  · show endsIn (· = '/') ('/' :: [seg.headD ':', ':'] ++ []) = false
    rfl
  · rw [Path.text_append]
    show endsIn (· = '/') ((Path.segments path).text ++ ('/' :: seg ++ [])) = false
    rw [List.append_nil, ← List.singleton_append, ← List.append_assoc, endsIn_append hne, hend]

/-- How the path ends, and whether a slash behind it shows. -/
theorem pathBehind_cases (scheme q : List Char) :
    (q = [] ∨ endsIn (isSlash (isSpecial scheme)) q = true) ∧ parsePath scheme q = pathBehind scheme q ∧
        endsIn (· = '/') (Path.segments (pathBehind scheme q)).text = true ∨
      (q ≠ [] ∧ endsIn (isSlash (isSpecial scheme)) q = false) ∧
        (parsePath scheme q = pathBehind scheme q ∧
            endsIn (· = '/') (Path.segments (pathBehind scheme q)).text = false ∨
          parsePath scheme q = pathBehind scheme q ++ [[]]) := by
  obtain ⟨init, seg, ⟨r, hr⟩, hseg, hempty, hsplit⟩ := exists_lastSegment (isSlash (isSpecial scheme)) q
  have hq := hsplit [] (by simp)
  rw [List.append_nil, List.append_nil] at hq
  rw [pathBehind_of_splitOnP hq, parsePath_of_splitOnP hq, pushSegment_last]
  by_cases hne : seg = []
  · subst hne
    have hdots : ¬ (isDoubleDot (percentEncode pathSet []) = true ∨ isSingleDot (percentEncode pathSet []) = true) := by
      decide
    refine .inl ⟨hempty rfl, by rw [if_neg hdots, List.append_nil], ?_⟩
    have hpush : ∀ path, pushSegment (decide (scheme = "file".toList)) false path (percentEncode pathSet []) =
        path ++ [[]] := fun path => pushSegments_plain (replicate_alphanum 0) _ path
    rw [hpush, Path.text_append]
    exact endsIn_append (by simp [Path.text])
  · refine .inr ⟨⟨?_, ?_⟩, ?_⟩
    · rintro rfl
      exact hne (List.append_eq_nil_iff.1 hr).2
    · rw [← hr, endsIn_append hne, endsIn_eq_false_of_forall hseg]
    · by_cases hdots : isDoubleDot (percentEncode pathSet seg) = true ∨ isSingleDot (percentEncode pathSet seg) = true
      · exact .inr (by rw [if_pos hdots])
      · rw [if_neg hdots, List.append_nil]
        simp only [not_or, Bool.not_eq_true] at hdots
        have hslash : '/' ∉ seg := by
          intro hmem
          have := hseg _ hmem
          simp [isSlash] at this
        exact .inl ⟨rfl, endsIn_pushSegment (percentEncode_ne_nil pathSet hne)
          (notMem_percentEncode (by decide) hslash) hdots.1 hdots.2⟩

/-- The dot segments, in lower case. -/
theorem mem_of_isDot {seg : List Char} (h : isDoubleDot seg = true ∨ isSingleDot seg = true) :
    seg.map Char.toLower ∈ ["..".toList, ".%2e".toList, "%2e.".toList, "%2e%2e".toList] ++ [".".toList, "%2e".toList] :=
  List.mem_append.2 (h.imp of_decide_eq_true of_decide_eq_true)

/-- A last character that ends no dot segment. -/
theorem parsePath_concat {scheme : List Char} {c : Char} (hslash : isSlash (isSpecial scheme) c = false)
    (hset : pathSet c = false) (hdot : c.toLower ∉ ['.', 'e']) (q : List Char) :
    parsePath scheme (q ++ [c]) = pathBehind scheme (q ++ [c]) := by
  obtain ⟨init, seg, _, _, _, hsplit⟩ := exists_lastSegment (isSlash (isSpecial scheme)) q
  have hq := hsplit [c] (by simpa using hslash)
  have hencode : percentEncode pathSet (seg ++ [c]) = percentEncode pathSet seg ++ [c] := by
    rw [percentEncode_append, percentEncode_eq_self (s := [c]) (by simpa using hset)]
  have hdots : ¬ (isDoubleDot (percentEncode pathSet (seg ++ [c])) = true ∨
      isSingleDot (percentEncode pathSet (seg ++ [c])) = true) := by
    intro h
    have hlast := forall_mem_of_all (P := fun d => endsIn (· ∈ ['.', 'e']) d = true) (by decide) _ (mem_of_isDot h)
    rw [hencode, List.map_append, List.map_singleton, endsIn_concat] at hlast
    exact hdot (of_decide_eq_true hlast)
  rw [parsePath_of_splitOnP hq, pathBehind_of_splitOnP hq, pushSegment_last, if_neg hdots, List.append_nil]

/-! ### Authorities -/

private theorem splitHostPort_append {s t : List Char} (ht : ':' ∉ t) (inBrackets : Bool) :
    splitHostPort inBrackets (s ++ t) = match splitHostPort inBrackets s with
      | (host, none) => (host ++ t, none)
      | (host, some port) => (host, some (port ++ t)) := by
  induction s generalizing inBrackets with
  | nil =>
    rw [List.nil_append]
    show splitHostPort inBrackets t = (t, none)
    induction t generalizing inBrackets with
    | nil => rfl
    | cons c t ih =>
      simp only [List.mem_cons, not_or] at ht
      have hc : ¬ (c = ':' ∧ inBrackets = false) := fun h => ht.1 h.1.symm
      rw [splitHostPort, if_neg hc]
      simp only [ih ht.2]
  | cons c s ih =>
    rw [List.cons_append, splitHostPort, splitHostPort]
    split
    · rfl
    · simp only [ih]
      cases splitHostPort (if c = '[' then true else if c = ']' then false else inBrackets) s with
      | mk host port => cases port <;> rfl

section

variable {hostParser : HostParser} {scheme text spaces : List Char} {a : Authority}

private theorem rtakeWhile_append {s t : List Char} (ht : '@' ∉ t) :
    (s ++ t).rtakeWhile (· ≠ '@') = s.rtakeWhile (· ≠ '@') ++ t := by
  rw [List.rtakeWhile, List.reverse_append, List.takeWhile_append_of_pos, List.reverse_append, List.reverse_reverse,
    List.rtakeWhile]
  intro c hc
  exact decide_eq_true (by rintro rfl; exact ht (List.mem_reverse.1 hc))

/-- The text that is parsed as the host. -/
def hostPart (text : List Char) : List Char := (splitHostPort false (text.rtakeWhile (· ≠ '@'))).1

theorem host_of_parseAuthority (h : parseAuthority hostParser scheme text = some a) :
    ∃ host, hostParser (isSpecial scheme) (hostPart text) = some host ∧ a.host = some host := by
  unfold parseAuthority at h
  dsimp only at h
  split at h
  · cases h
  split at h
  · cases h
  rename_i host hhost
  split at h
  · cases h
  cases h
  exact ⟨host, hhost, rfl⟩

/-- Spaces behind an authority belong to its host: no port has any. -/
theorem hostPart_append (hne : spaces ≠ []) (hspaces : ∀ c ∈ spaces, isC0OrSpace c = true)
    (h : parseAuthority hostParser scheme (text ++ spaces) = some a) :
    hostPart (text ++ spaces) = hostPart text ++ spaces := by
  have hnot : ∀ c, isC0OrSpace c = false → c ∉ spaces := by
    intro c hc hmem
    rw [hspaces c hmem] at hc
    cases hc
  have hsplit := splitHostPort_append (s := text.rtakeWhile (· ≠ '@')) (hnot ':' (by decide)) false
  rw [← rtakeWhile_append (hnot '@' (by decide))] at hsplit
  cases hport : splitHostPort false (text.rtakeWhile (· ≠ '@')) with
  | mk host port =>
    rw [hport] at hsplit
    cases port with
    | none => rw [hostPart, hostPart, hsplit, hport]
    | some port =>
      -- the port would be digits and spaces
      unfold parseAuthority at h
      simp only [hsplit, Option.elim_some] at h
      have hdigits : (port ++ spaces).all Char.isDigit = false := by
        obtain ⟨c, s, rfl⟩ := List.exists_cons_of_ne_nil hne
        have hc : c.isDigit = false := by
          cases hd : c.isDigit with
          | false => rfl
          | true =>
            refine absurd (hspaces c List.mem_cons_self) ?_
            have hplain : isPlainChar c = true := isPlainChar_of_isAlphanum (by simp [Char.isAlphanum, hd])
            rw [(isPlainChar_ne hplain).1]
            decide
        simp [hc]
      have hnone : parsePort scheme (port ++ spaces) = none := by
        rw [parsePort, hdigits]
        rfl
      rw [hnone] at h
      split at h
      · cases h
      · split at h <;> cases h

end

/-! ### Special schemes -/

/-- The text ends with the authority, which parses to `o`. -/
structure AtAuthority (hostParser : HostParser) (scheme text : List Char) (o : Option Authority) : Prop where
  read : ∀ t, parseHierarchy hostParser scheme (text ++ '/' :: t) = o.map fun a => (a, .segments (parsePath scheme t))
  stop : ∃ path, (path = [] ∨ path = [[]]) ∧ parseHierarchy hostParser scheme text = o.map fun a => (a, .segments path)
  noSlash : endsIn (isSlash (isSpecial scheme)) text = false

/-- The text ends inside the path, of which it has `q`, behind an authority that parses to `o`. -/
structure InPath (hostParser : HostParser) (scheme text : List Char) (o : Option Authority) (q : List Char) : Prop where
  read : ∀ t : List Char, (∀ c, t.head? = some c → c = '/') →
    parseHierarchy hostParser scheme (text ++ t) = o.map fun a => (a, .segments (parsePath scheme (q ++ t)))
  suffix : q <:+ text
  slash : q = [] → endsIn (isSlash (isSpecial scheme)) text = true

section

variable {hostParser : HostParser} {scheme slashes text p : List Char}

/-- Slashes, the authority, and nothing or a slash behind it. -/
theorem parseSpecial_eq (hslashes : ∀ c ∈ slashes, isSlash true c = true) (hne : text ≠ [])
    (htext : ∀ c ∈ text, isSlash true c = false) (hp : ∀ c, p.head? = some c → isSlash true c = true) :
    parseSpecial hostParser scheme (slashes ++ text ++ p) =
      (parseAuthority hostParser scheme text).map fun a => (a, .segments (parsePath scheme (p.drop 1))) := by
  have hrest : (slashes ++ text ++ p).dropWhile (isSlash true) = text ++ p := by
    obtain ⟨c, text, rfl⟩ := List.exists_cons_of_ne_nil hne
    rw [List.append_assoc, List.dropWhile_append_of_pos hslashes, List.cons_append, List.dropWhile_cons_of_neg]
    rw [htext c List.mem_cons_self]
    decide
  have hnot : ∀ c ∈ text, (! isSlash true c) = true := fun c hc => by rw [htext c hc]; rfl
  have hcut := cut_of_head (p := (! isSlash true ·)) fun c hc => by rw [hp c hc]; rfl
  rw [parseSpecial, hrest, List.takeWhile_append_of_pos hnot, List.dropWhile_append_of_pos hnot, hcut.1, hcut.2,
    List.append_nil]

section

variable (hostParser) (hspecial : isSpecial scheme = true) (hfile : scheme ≠ "file".toList)
  (hslashes : ∀ c ∈ slashes, isSlash true c = true) (hne : text ≠ []) (htext : ∀ c ∈ text, isSlash true c = false)

include hspecial hfile hslashes hne htext

theorem parseHierarchy_special (hp : ∀ c, p.head? = some c → isSlash true c = true) :
    parseHierarchy hostParser scheme (slashes ++ text ++ p) =
      (parseAuthority hostParser scheme text).map fun a => (a, .segments (parsePath scheme (p.drop 1))) := by
  rw [parseHierarchy, if_neg hfile, if_pos hspecial, parseSpecial_eq hslashes hne htext hp]

theorem atAuthority_special :
    AtAuthority hostParser scheme (slashes ++ text) (parseAuthority hostParser scheme text) where
  read t := parseHierarchy_special hostParser hspecial hfile hslashes hne htext (by simp [isSlash])
  stop := by
    refine ⟨[[]], .inr rfl, ?_⟩
    have h := parseHierarchy_special hostParser (p := []) hspecial hfile hslashes hne htext (by simp)
    rw [List.append_nil] at h
    have hnil : parsePath scheme [] = [[]] := parsePath_plain (replicate_alphanum 0) scheme
    rw [h, List.drop_nil, hnil]
  noSlash := by rw [hspecial, endsIn_append hne, endsIn_eq_false_of_forall htext]

theorem inPath_special {c : Char} (hc : isSlash true c = true) (q : List Char) :
    InPath hostParser scheme (slashes ++ text ++ c :: q) (parseAuthority hostParser scheme text) q where
  read t _ := by
    rw [List.append_assoc, List.cons_append,
      parseHierarchy_special hostParser hspecial hfile hslashes hne htext (by simpa using hc)]
    rfl
  suffix := ⟨slashes ++ text ++ [c], by simp⟩
  slash := by
    rintro rfl
    rw [hspecial, endsIn_concat, hc]

end

/-- A text that is not all slashes. -/
theorem exists_authority (h : ∃ c ∈ text, isSlash true c = false) :
    ∃ slashes authority p, text = slashes ++ authority ++ p ∧ (∀ c ∈ slashes, isSlash true c = true) ∧
      authority ≠ [] ∧ (∀ c ∈ authority, isSlash true c = false) ∧ ∀ c, p.head? = some c → isSlash true c = true := by
  obtain ⟨slashes, rest, rfl, hslashes, hrest⟩ := exists_cut (! isSlash true ·) text
  obtain ⟨authority, p, rfl, hauthority, hp⟩ := exists_cut (isSlash true) rest
  refine ⟨slashes, authority, p, (List.append_assoc _ _ _).symm, fun c hc => by simpa using hslashes c hc, ?_,
    hauthority, hp⟩
  rintro rfl
  obtain ⟨c, hc, hslash⟩ := h
  rcases List.mem_append.1 hc with hc | hc
  · have := hslashes c hc
    rw [hslash] at this
    cases this
  -- the rest would start with a slash and with none
  · cases p with
    | nil => cases hc
    | cons d p =>
      have := hrest d rfl
      rw [hp d rfl] at this
      cases this

end

end Whatwg
