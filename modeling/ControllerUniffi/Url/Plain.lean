import ControllerUniffi.Url.Parser

/-!
# Plain URLs

A text made of a special scheme, a host and path segments of letters, digits, dots and hyphens parses to just these
parts (`parse_plain`): nothing in it is trimmed, escaped, or taken for credentials, a port, a query or a fragment.
-/

namespace Whatwg

open Text

def isPlainChar (c : Char) : Bool := c.isAlphanum || c = '-' || c = '.'

theorem ascii_of_isPlainChar {c : Char} (h : isPlainChar c = true) : c.toNat < 0x80 := by
  simp only [isPlainChar, Bool.or_eq_true, decide_eq_true_eq] at h
  rcases h with (h | rfl) | rfl
  · exact ascii_of_isAlphanum h
  · decide
  · decide

theorem isPlainChar_of_isAlphanum {c : Char} (h : c.isAlphanum = true) : isPlainChar c = true := by
  simp [isPlainChar, h]

/-- Letter case does not make a character plain. -/
theorem isPlainChar_toLower {c : Char} (h : c.toNat < 0x80) :
    isPlainChar c.toLower = isPlainChar c ∧ c.toLower.toLower = c.toLower :=
  forall_ascii (P := fun c => isPlainChar c.toLower = isPlainChar c ∧ c.toLower.toLower = c.toLower)
    (by decide +kernel) h

/-- A plain character delimits nothing. -/
theorem isPlainChar_ne {c : Char} (h : isPlainChar c = true) :
    isC0OrSpace c = false ∧ c ∉ ['?', '#', '@', ':', '[', ']', '/', '\\'] := by
  constructor
  · exact forall_ascii (P := fun c => isPlainChar c = true → isC0OrSpace c = false) (by decide +kernel)
      (ascii_of_isPlainChar h) h
  · intro hc
    have : ∀ c ∈ ['?', '#', '@', ':', '[', ']', '/', '\\'], isPlainChar c = false :=
      forall_mem_of_all (by decide)
    rw [this c hc] at h
    cases h

/-- A character of a plain URL starts no query and no fragment, and is neither space nor control. -/
def isPlainUrlChar (c : Char) : Bool := isPlainChar c || c = ':' || c = '/'

theorem isPlainUrlChar_ne {c : Char} (h : isPlainUrlChar c = true) : isC0OrSpace c = false ∧ c ≠ '?' ∧ c ≠ '#' := by
  simp only [isPlainUrlChar, Bool.or_eq_true, decide_eq_true_eq] at h
  rcases h with (h | rfl) | rfl
  · obtain ⟨hspace, hne⟩ := isPlainChar_ne h
    simp only [List.mem_cons, not_or] at hne
    exact ⟨hspace, hne.1, hne.2.1⟩
  · decide
  · decide

/-! ### The parts of the text -/

private theorem dropWhile_of_all_false {α : Type} {p : α → Bool} {s : List α} (h : ∀ c ∈ s, p c = false) :
    s.dropWhile p = s := by
  cases s with
  | nil => rfl
  | cons c s => rw [List.dropWhile_cons, h c List.mem_cons_self]; rfl

theorem preprocess_plain {s : List Char} (h : ∀ c ∈ s, isPlainUrlChar c = true) : preprocess s = s := by
  have hspace : ∀ c ∈ s, isC0OrSpace c = false := fun c hc => (isPlainUrlChar_ne (h c hc)).1
  have hnewline : ∀ c ∈ s, (! isTabOrNewline c) = true := by
    intro c hc
    have hne : isC0OrSpace c = false := hspace c hc
    unfold isTabOrNewline
    have ht : c ≠ '\t' := by rintro rfl; exact absurd hne (by decide)
    have hn : c ≠ '\n' := by rintro rfl; exact absurd hne (by decide)
    have hr : c ≠ '\r' := by rintro rfl; exact absurd hne (by decide)
    simp [ht, hn, hr]
  unfold preprocess
  rw [dropWhile_of_all_false hspace, List.rdropWhile, dropWhile_of_all_false, List.reverse_reverse,
    List.filter_eq_self.2 hnewline]
  intro c hc
  exact hspace c (List.mem_reverse.1 hc)

theorem splitScheme_plain {scheme : List Char} (hne : scheme ≠ []) (h : ∀ c ∈ scheme, c.isAlpha = true)
    (rest : List Char) : splitScheme (scheme ++ ':' :: rest) = some (lower scheme, rest) := by
  have hscheme : ∀ c ∈ scheme, isSchemeChar c = true := by
    intro c hc
    simp [isSchemeChar, Char.isAlphanum, h c hc]
  cases scheme with
  | nil => exact absurd rfl hne
  | cons c s =>
    have hdrop : (c :: s ++ ':' :: rest).dropWhile isSchemeChar = ':' :: rest := by
      rw [List.dropWhile_append_of_pos hscheme]
      rfl
    have htake : (c :: s ++ ':' :: rest).takeWhile isSchemeChar = c :: s := by
      rw [List.takeWhile_append_of_pos hscheme]
      exact List.append_nil _
    rw [List.cons_append] at hdrop htake ⊢
    simp only [splitScheme, h c List.mem_cons_self, ↓reduceIte, hdrop, htake, lower]

private theorem splitHostPort_plain {s : List Char} (h : ∀ c ∈ s, isPlainChar c = true) :
    splitHostPort false s = (s, none) := by
  induction s with
  | nil => rfl
  | cons c s ih =>
    obtain ⟨_, hne⟩ := isPlainChar_ne (h c List.mem_cons_self)
    simp only [List.mem_cons, not_or] at hne
    simp only [splitHostPort, hne, false_and, ↓reduceIte, ih fun d hd => h d (List.mem_cons_of_mem c hd)]

theorem parseAuthority_plain {hostParser : HostParser} {scheme text host : List Char} (hne : text ≠ [])
    (h : ∀ c ∈ text, isPlainChar c = true) (hhost : hostParser (isSpecial scheme) text = some host) :
    parseAuthority hostParser scheme text =
      some { username := [], password := [], host := some host, port := none } := by
  have hat : ∀ c ∈ text, decide (c ≠ '@') = true := by
    intro c hc
    obtain ⟨_, hnot⟩ := isPlainChar_ne (h c hc)
    simp only [List.mem_cons, not_or] at hnot
    exact decide_eq_true hnot.2.2.1
  have hcredentials : text.rdropWhile (· ≠ '@') = [] := List.rdropWhile_eq_nil_iff.2 hat
  have htext : text.rtakeWhile (· ≠ '@') = text := List.rtakeWhile_eq_self_iff.2 hat
  unfold parseAuthority
  simp only [hcredentials, htext, splitHostPort_plain h, hne, false_and, ↓reduceIte, hhost, Option.elim_none]
  rfl

/-! ### Plain paths -/

theorem percentEncode_plain {seg : List Char} (h : ∀ c ∈ seg, c.isAlphanum = true) : percentEncode pathSet seg = seg := by
  apply percentEncode_eq_self
  intro c hc
  exact forall_ascii (P := fun c => c.isAlphanum = true → pathSet c = false) (by decide +kernel)
    (ascii_of_isAlphanum (h c hc)) (h c hc)

theorem replicate_alphanum (n : Nat) : ∀ s ∈ ([] : List Char) :: List.replicate n [], ∀ c ∈ s, c.isAlphanum = true := by
  intro s hs c hc
  rw [← List.replicate_succ] at hs
  rw [List.eq_of_mem_replicate hs] at hc
  cases hc

theorem isDriveLetter_plain {seg : List Char} (h : ∀ c ∈ seg, c.isAlphanum = true) : isDriveLetter seg = false := by
  unfold isDriveLetter
  split
  · rename_i c d
    have hd : d.isAlphanum = true := h d (by simp)
    have hmarks : d ≠ ':' ∧ d ≠ '|' := by constructor <;> (rintro rfl; exact absurd hd (by decide))
    simp [hmarks]
  · rfl

/-- A segment of letters and digits is no dot segment, and no drive letter either. -/
private theorem pushSegment_plain {seg : List Char} (h : ∀ c ∈ seg, c.isAlphanum = true) (file last : Bool)
    (path : List (List Char)) : pushSegment file last path seg = path ++ [seg] := by
  have hlower : ∀ c : Char, c.isAlphanum = true → c.toLower ∉ ['.', '%'] := by
    intro c hc
    exact forall_ascii (P := fun c => c.isAlphanum = true → c.toLower ∉ ['.', '%']) (by decide +kernel)
      (ascii_of_isAlphanum hc) hc
  have hdots : ∀ d ds, d ∈ ['.', '%'] → seg.map Char.toLower ≠ d :: ds := by
    intro d ds hd heq
    cases seg with
    | nil => cases heq
    | cons c seg =>
      obtain ⟨rfl, _⟩ := List.cons.inj heq
      exact hlower c (h c List.mem_cons_self) hd
  have hsingle : isSingleDot seg = false := by
    simp [isSingleDot, hdots '.' _ (by decide), hdots '%' _ (by decide)]
  have hdouble : isDoubleDot seg = false := by
    simp [isDoubleDot, hdots '.' _ (by decide), hdots '%' _ (by decide)]
  simp [pushSegment, hsingle, hdouble, isDriveLetter_plain h]

theorem pushSegments_plain {segs : List (List Char)} (h : ∀ seg ∈ segs, ∀ c ∈ seg, c.isAlphanum = true) (file : Bool)
    (path : List (List Char)) : pushSegments file path segs = path ++ segs := by
  induction segs generalizing path with
  | nil => exact (List.append_nil path).symm
  | cons seg segs ih =>
    have hseg := h seg List.mem_cons_self
    cases segs with
    | nil => rw [pushSegments, percentEncode_plain hseg, pushSegment_plain hseg]
    | cons seg' segs =>
      rw [pushSegments, percentEncode_plain hseg, pushSegment_plain hseg,
        ih (fun s hs => h s (List.mem_cons_of_mem seg hs)), List.append_assoc]
      · rfl
      · rintro ⟨⟩

private theorem splitOnP_plain {p : Char → Bool} (hslash : p '/' = true) {seg : List Char} {segs : List (List Char)}
    (h : ∀ s ∈ seg :: segs, ∀ c ∈ s, p c = false) :
    (seg ++ segs.flatMap ('/' :: ·)).splitOnP p = seg :: segs := by
  induction segs generalizing seg with
  | nil =>
    rw [List.flatMap_nil, List.append_nil]
    exact List.splitOnP_eq_singleton (h seg List.mem_cons_self)
  | cons seg' segs ih =>
    rw [List.flatMap_cons, List.cons_append,
      List.splitOnP_append_cons_of_forall_mem (h seg List.mem_cons_self) '/' hslash,
      ih fun s hs => h s (List.mem_cons_of_mem seg hs)]

theorem isSlash_plain {c : Char} (h : isPlainChar c = true) : isSlash true c = false := by
  obtain ⟨_, hne⟩ := isPlainChar_ne h
  simp only [List.mem_cons, not_or] at hne
  simp [isSlash, hne]

/-- Segments of letters and digits are cut at the slashes between them. -/
theorem splitOnP_segments {seg : List Char} {segs : List (List Char)}
    (h : ∀ s ∈ seg :: segs, ∀ c ∈ s, c.isAlphanum = true) (special : Bool) :
    (seg ++ segs.flatMap ('/' :: ·)).splitOnP (isSlash special) = seg :: segs := by
  refine splitOnP_plain rfl fun s hs c hc => ?_
  have hslash := isSlash_plain (isPlainChar_of_isAlphanum (h s hs c hc))
  simp only [isSlash, Bool.or_eq_false_iff, Bool.and_eq_false_iff] at hslash ⊢
  exact ⟨hslash.1, hslash.2.elim (fun h => by cases h) .inr⟩

theorem parsePath_plain {seg : List Char} {segs : List (List Char)}
    (h : ∀ s ∈ seg :: segs, ∀ c ∈ s, c.isAlphanum = true) (scheme : List Char) :
    parsePath scheme (seg ++ segs.flatMap ('/' :: ·)) = seg :: segs := by
  rw [parsePath, splitOnP_segments h, pushSegments_plain h, List.nil_append]

/-! ### Plain URLs -/

private theorem parseSpecial_plain {hostParser : HostParser} {scheme host host' seg : List Char}
    {segs : List (List Char)} (hspecial : isSpecial scheme = true)
    (hhostne : host ≠ []) (hhost : ∀ c ∈ host, isPlainChar c = true) (hparse : hostParser true host = some host')
    (hsegs : ∀ s ∈ seg :: segs, ∀ c ∈ s, c.isAlphanum = true) :
    parseSpecial hostParser scheme ('/' :: '/' :: (host ++ (seg :: segs).flatMap ('/' :: ·))) =
      some ({ username := [], password := [], host := some host', port := none }, .segments (seg :: segs)) := by
  have htail : (seg :: segs).flatMap ('/' :: ·) = '/' :: (seg ++ segs.flatMap ('/' :: ·)) := by
    rw [List.flatMap_cons, List.cons_append]
  have hnotSlash : ∀ c ∈ host, (! isSlash true c) = true := fun c hc => by rw [isSlash_plain (hhost c hc)]; rfl
  have hrest : ('/' :: '/' :: (host ++ (seg :: segs).flatMap ('/' :: ·))).dropWhile (isSlash true) =
      host ++ '/' :: (seg ++ segs.flatMap ('/' :: ·)) := by
    obtain ⟨c, host, rfl⟩ := List.exists_cons_of_ne_nil hhostne
    rw [htail, List.cons_append, List.dropWhile_cons_of_pos (by decide), List.dropWhile_cons_of_pos (by decide),
      List.dropWhile_cons_of_neg (by simp [isSlash_plain (hhost c List.mem_cons_self)])]
  have htake : (host ++ '/' :: (seg ++ segs.flatMap ('/' :: ·))).takeWhile (! isSlash true ·) = host := by
    rw [List.takeWhile_append_of_pos hnotSlash]
    exact List.append_nil host
  have hdrop : (host ++ '/' :: (seg ++ segs.flatMap ('/' :: ·))).dropWhile (! isSlash true ·) =
      '/' :: (seg ++ segs.flatMap ('/' :: ·)) := by
    rw [List.dropWhile_append_of_pos hnotSlash]
    rfl
  have hhostText : hostParser (isSpecial scheme) host = some host' := by rw [hspecial, hparse]
  have hauthority := parseAuthority_plain hhostne hhost hhostText
  simp only [parseSpecial, hrest, htake, hdrop, hauthority, Option.map_some, List.drop_succ_cons, List.drop_zero,
    parsePath_plain hsegs]

/-- A plain URL parses to its parts. -/
theorem parse_plain {hostParser : HostParser} {scheme host host' seg : List Char} {segs : List (List Char)}
    (hne : scheme ≠ []) (hscheme : ∀ c ∈ scheme, c.isAlpha = true) (hspecial : isSpecial (lower scheme) = true)
    (hfile : lower scheme ≠ "file".toList) (hhostne : host ≠ []) (hhost : ∀ c ∈ host, isPlainChar c = true)
    (hparse : hostParser true host = some host') (hsegs : ∀ s ∈ seg :: segs, ∀ c ∈ s, c.isAlphanum = true) :
    parse hostParser (scheme ++ "://".toList ++ host ++ (seg :: segs).flatMap ('/' :: ·)) = some {
      scheme := lower scheme
      authority := { username := [], password := [], host := some host', port := none }
      path := .segments (seg :: segs)
      query := none
      fragment := none } := by
  have hrest : ∀ c ∈ '/' :: '/' :: (host ++ (seg :: segs).flatMap ('/' :: ·)), isPlainUrlChar c = true := by
    intro c hc
    simp only [List.mem_cons, List.mem_append, List.mem_flatMap] at hc
    rcases hc with rfl | rfl | hc | ⟨s, hs, rfl | hc⟩
    · decide
    · decide
    · simp [isPlainUrlChar, hhost c hc]
    · decide
    · simp [isPlainUrlChar, isPlainChar_of_isAlphanum (hsegs s (List.mem_cons.2 hs) c hc)]
  have htext : scheme ++ "://".toList ++ host ++ (seg :: segs).flatMap ('/' :: ·) =
      scheme ++ ':' :: '/' :: '/' :: (host ++ (seg :: segs).flatMap ('/' :: ·)) := by
    simp only [List.append_assoc]
    rfl
  have hall : ∀ c ∈ scheme ++ ':' :: '/' :: '/' :: (host ++ (seg :: segs).flatMap ('/' :: ·)),
      isPlainUrlChar c = true := by
    intro c hc
    rcases List.mem_append.1 hc with hc | hc
    · simp [isPlainUrlChar, isPlainChar, Char.isAlphanum, hscheme c hc]
    · rcases List.mem_cons.1 hc with rfl | hc
      · decide
      · exact hrest c hc
  -- no query and no fragment is cut off
  have hbefore : ∀ c ∈ '/' :: '/' :: (host ++ (seg :: segs).flatMap ('/' :: ·)),
      decide (c ≠ '?' ∧ c ≠ '#') = true := fun c hc => decide_eq_true (isPlainUrlChar_ne (hrest c hc)).2
  have hfragment : ∀ c ∈ '/' :: '/' :: (host ++ (seg :: segs).flatMap ('/' :: ·)), decide (c ≠ '#') = true :=
    fun c hc => decide_eq_true (isPlainUrlChar_ne (hrest c hc)).2.2
  rw [htext, parse, preprocess_plain hall, splitScheme_plain hne hscheme]
  generalize hs : '/' :: '/' :: (host ++ (seg :: segs).flatMap ('/' :: ·)) = rest at hbefore hfragment
  have htake : rest.takeWhile (fun c => decide (c ≠ '?' ∧ c ≠ '#')) = rest := List.takeWhile_eq_self_iff.2 hbefore
  have hquery : queryText rest = none := by rw [queryText, List.dropWhile_eq_nil_iff.2 hbefore]
  have hfrag : fragmentText rest = none := by rw [fragmentText, List.dropWhile_eq_nil_iff.2 hfragment]
  have hhierarchy : parseHierarchy hostParser (lower scheme) rest =
      some ({ username := [], password := [], host := some host', port := none }, .segments (seg :: segs)) := by
    rw [parseHierarchy, if_neg hfile, if_pos hspecial, ← hs, parseSpecial_plain hspecial hhostne hhost hparse hsegs]
  simp only [htake, hhierarchy, hquery, hfrag, Option.map_some, Option.map_none]

end Whatwg
