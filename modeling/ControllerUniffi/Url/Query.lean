import ControllerUniffi.Text.Form
import ControllerUniffi.Url.Parser

/-!
# The query of a URL

Nothing the parser puts before the query contains `?` or `#`, and no query contains `#` (`parse_wf`), so the query
can be cut out of the serialization (`queryOf_serialize`).  Appending a name-value pair adds that pair at the end
of the pairs the query stands for and changes no other (`pairs_appendPair`, `pairs_appendPairs`).
-/

namespace Whatwg

open Text

/-- No character of `s` starts a query or a fragment. -/
def Clean (s : List Char) : Prop := ∀ c ∈ s, c ≠ '?' ∧ c ≠ '#'

structure Url.Wf (u : Url) : Prop where
  head : Clean u.head
  query : ∀ q, u.query = some q → '#' ∉ q

/-- The query cut out of the text of a URL: from the first `?` to the first `#`. -/
def queryOf (s : List Char) : List Char := ((s.takeWhile (· ≠ '#')).dropWhile (· ≠ '?')).drop 1

/-- The name-value pairs of the query. -/
def Url.pairs (u : Url) : List (List Char × List Char) := Form.parse (encode (u.query.getD []))

/-- The URL with its query opened for appending: a missing query becomes the empty one. -/
def Url.queryPairsMut (u : Url) : Url := { u with query := some (u.query.getD []) }

/-- Append a serialized pair to the query, behind a `&` unless it is the first. -/
def Url.appendPair (u : Url) (name value : List Char) : Url :=
  { u with
    query :=
      if u.query.getD [] = [] then some (Form.serializePair name value)
      else some (u.query.getD [] ++ '&' :: Form.serializePair name value) }

/-- Append pairs in order. -/
def Url.appendPairs (u : Url) (pairs : List (List Char × List Char)) : Url :=
  pairs.foldl (fun u pair => u.appendPair pair.1 pair.2) u

/-! ### Clean texts -/

theorem Clean.of_subset {s t : List Char} (h : Clean s) (hst : ∀ c ∈ t, c ∈ s) : Clean t :=
  fun c hc => h c (hst c hc)

theorem Clean.append {s t : List Char} (hs : Clean s) (ht : Clean t) : Clean (s ++ t) := by
  intro c hc
  rcases List.mem_append.1 hc with h | h
  · exact hs c h
  · exact ht c h

theorem clean_nil : Clean [] := by simp [Clean]

theorem Clean.cons {c : Char} {s : List Char} (hc : c ≠ '?' ∧ c ≠ '#') (hs : Clean s) : Clean (c :: s) := by
  intro d hd
  rcases List.mem_cons.1 hd with rfl | h
  · exact hc
  · exact hs d h

private theorem not_alphanum_clean {c : Char} (h : c.isAlphanum = true) : c ≠ '?' ∧ c ≠ '#' := by
  constructor <;> (rintro rfl; exact absurd h (by decide))

theorem Clean.percentEncode {set : Char → Bool} {s : List Char} (h : Clean s) :
    Clean (percentEncode set s) := by
  intro c hc
  rcases mem_percentEncode hc with hs | hp
  · exact h c hs
  · rcases hp.alphanum_or with rfl | ha
    · decide
    · exact not_alphanum_clean ha

private theorem clean_takeWhile (s : List Char) : Clean (s.takeWhile fun c => c ≠ '?' ∧ c ≠ '#') := by
  intro c hc
  simpa using List.mem_takeWhile_imp hc

/-! ### The parser -/

private theorem clean_splitScheme {s scheme rest : List Char} (h : splitScheme s = some (scheme, rest)) :
    Clean scheme := by
  have key : ∀ c, isSchemeChar c = true → c.toLower ≠ '?' ∧ c.toLower ≠ '#' := by
    intro c hc
    have hlt : c.toNat < 0x80 := by
      simp only [isSchemeChar, Bool.or_eq_true, decide_eq_true_eq] at hc
      rcases hc with ((h | rfl) | rfl) | rfl
      · exact ascii_of_isAlphanum h
      all_goals decide
    exact forall_ascii (P := fun c => isSchemeChar c = true → c.toLower ≠ '?' ∧ c.toLower ≠ '#')
      (by decide +kernel) hlt hc
  unfold splitScheme at h
  split at h
  · cases h
  · split at h
    · split at h
      · cases h
        intro c hc
        obtain ⟨d, hd, rfl⟩ := List.mem_map.1 hc
        exact key d (List.mem_takeWhile_imp hd)
      · cases h
    · cases h

private theorem clean_digits (n : Nat) : Clean (Nat.toDigits 10 n) := by
  intro c hc
  have h : c.isDigit = true := Nat.isDigit_of_mem_toDigits (by decide) (by decide) hc
  exact not_alphanum_clean (by simp [Char.isAlphanum, h])

/-- What the host parser has to keep out of a serialized host. -/
def HostParser.Clean (hostParser : HostParser) : Prop :=
  ∀ special text host, hostParser special text = some host → Whatwg.Clean host

private theorem clean_authority_text {a : Authority} (hu : Clean a.username) (hp : Clean a.password)
    (hh : ∀ host, a.host = some host → Clean host) : Clean a.text := by
  unfold Authority.text
  split
  · exact clean_nil
  · rename_i host hhost
    refine Clean.append (Clean.append (Clean.append ?_ ?_) (hh host hhost)) ?_
    · simp [Clean]
    · split
      · exact clean_nil
      · refine Clean.append (Clean.append hu ?_) (by simp [Clean])
        split
        · exact clean_nil
        · exact Clean.cons (by decide) hp
    · cases a.port with
      | none => exact clean_nil
      | some n => exact Clean.cons (by decide) (clean_digits n)

private theorem clean_parseAuthority {hostParser : HostParser} (hhost : hostParser.Clean)
    {scheme text : List Char} {a : Authority} (h : parseAuthority hostParser scheme text = some a)
    (htext : Clean text) : Clean a.text := by
  unfold parseAuthority at h
  dsimp only at h
  split at h
  · cases h
  split at h
  · cases h
  rename_i host hh
  split at h
  · cases h
  cases h
  have hcred : ∀ c ∈ ((text.rdropWhile (· ≠ '@')).dropLast), c ∈ text :=
    fun c hc => (List.rdropWhile_prefix _ _).subset (List.dropLast_subset _ hc)
  refine clean_authority_text ?_ ?_ ?_
  · exact (htext.of_subset fun c hc => hcred c ((List.takeWhile_prefix _).subset hc)).percentEncode
  · exact (htext.of_subset fun c hc =>
      hcred c ((List.dropWhile_suffix _).subset (List.mem_of_mem_drop hc))).percentEncode
  · intro _ he
    cases he
    exact hhost _ _ _ hh

private theorem mem_of_mem_splitOnP {p : Char → Bool} {s seg : List Char} {c : Char} (hseg : seg ∈ s.splitOnP p)
    (hc : c ∈ seg) : c ∈ s := by
  induction s generalizing seg with
  | nil => simp at hseg; subst hseg; exact hc
  | cons d s ih =>
    rw [List.splitOnP_cons_eq_if_modifyHead] at hseg
    split at hseg
    · rcases List.mem_cons.1 hseg with rfl | h
      · cases hc
      · exact List.mem_cons_of_mem _ (ih h hc)
    · obtain ⟨t, l, hl⟩ := List.exists_cons_of_ne_nil (List.splitOnP_ne_nil p s)
      rw [hl, List.modifyHead_cons] at hseg
      rcases List.mem_cons.1 hseg with rfl | h
      · rcases List.mem_cons.1 hc with rfl | h
        · exact List.mem_cons_self
        · exact List.mem_cons_of_mem _ (ih (hl ▸ List.mem_cons_self) h)
      · exact List.mem_cons_of_mem _ (ih (hl ▸ List.mem_cons_of_mem _ h) hc)

private theorem clean_shorten {file : Bool} {path : List (List Char)} (h : ∀ s ∈ path, Clean s) :
    ∀ s ∈ shorten file path, Clean s := by
  unfold shorten
  split
  · split
    · exact h
    · simp
  · exact fun s hs => h s (List.dropLast_subset _ hs)

private theorem clean_pushSegment {file last : Bool} {path : List (List Char)} {seg : List Char}
    (h : ∀ s ∈ path, Clean s) (hseg : Clean seg) : ∀ s ∈ pushSegment file last path seg, Clean s := by
  have hlast : ∀ s ∈ (if last then [[]] else [] : List (List Char)), Clean s := by
    cases last <;> simp [Clean]
  unfold pushSegment
  intro s hs
  split at hs
  · exact (List.mem_append.1 hs).elim (clean_shorten h s) (hlast s)
  split at hs
  · exact (List.mem_append.1 hs).elim (h s) (hlast s)
  split at hs
  · rw [List.mem_singleton] at hs
    subst hs
    refine Clean.cons ?_ (Clean.cons (by decide) clean_nil)
    cases seg with
    | nil => decide
    | cons c seg => exact hseg c List.mem_cons_self
  · rcases List.mem_append.1 hs with hs | hs
    · exact h s hs
    · exact List.mem_singleton.1 hs ▸ hseg

private theorem clean_pushSegments {file : Bool} (segs : List (List Char)) :
    ∀ path : List (List Char), (∀ s ∈ path, Clean s) → (∀ s ∈ segs, Clean s) →
      ∀ s ∈ pushSegments file path segs, Clean s := by
  induction segs with
  | nil => exact fun path h _ => h
  | cons seg rest ih =>
    intro path h hsegs
    have hseg : Clean (percentEncode pathSet seg) := (hsegs seg List.mem_cons_self).percentEncode
    cases rest with
    | nil => exact clean_pushSegment h hseg
    | cons next rest =>
      exact ih _ (clean_pushSegment h hseg) fun s hs => hsegs s (List.mem_cons_of_mem _ hs)

private theorem clean_segments_text {l : List (List Char)} (h : ∀ s ∈ l, Clean s) :
    Clean (Path.segments l).text := by
  intro c hc
  obtain ⟨s, hs, hc⟩ := List.mem_flatMap.1 hc
  rcases List.mem_cons.1 hc with rfl | hc
  · decide
  · exact h s hs c hc

private theorem clean_parsePath {scheme text : List Char} (h : Clean text) :
    Clean (Path.segments (parsePath scheme text)).text := by
  refine clean_segments_text (clean_pushSegments _ _ (by simp) fun seg hseg => ?_)
  exact fun c hc => h c (mem_of_mem_splitOnP hseg hc)

section Hierarchy

variable {hostParser : HostParser} (hhost : hostParser.Clean) {scheme text : List Char} {a : Authority} {path : Path}

private theorem clean_noAuthority {host : List Char} (h : Clean host) :
    Clean ({ noAuthority with host := some host } : Authority).text :=
  clean_authority_text clean_nil clean_nil fun _ he => by cases he; exact h

include hhost

private theorem clean_parseSpecial (h : parseSpecial hostParser scheme text = some (a, path)) (ht : Clean text) :
    Clean a.text ∧ Clean path.text := by
  obtain ⟨b, hb, he⟩ := Option.map_eq_some_iff.1 h
  cases he
  have hrest : Clean (text.dropWhile (isSlash true)) := ht.of_subset fun c hc => (List.dropWhile_suffix _).subset hc
  refine ⟨clean_parseAuthority hhost hb (hrest.of_subset fun c hc => (List.takeWhile_prefix _).subset hc), ?_⟩
  exact clean_parsePath (hrest.of_subset fun c hc => (List.dropWhile_suffix _).subset (List.mem_of_mem_drop hc))

private theorem clean_parseFile (h : parseFile hostParser scheme text = some (a, path)) (ht : Clean text) :
    Clean a.text ∧ Clean path.text := by
  -- with an empty host or a parsed one, and a path read from part of the text
  have local_ : ∀ p : List Char, (∀ c ∈ p, c ∈ text) → Clean ({ noAuthority with host := some [] } : Authority).text ∧
      Clean (Path.segments (parsePath scheme p)).text :=
    fun p hp => ⟨clean_noAuthority clean_nil, clean_parsePath (ht.of_subset hp)⟩
  unfold parseFile at h
  dsimp only at h
  split at h
  · rename_i c d rest
    have hafter : ∀ x ∈ (rest.dropWhile (! isSlash true ·)).drop 1, x ∈ c :: d :: rest := fun x hx =>
      List.mem_cons_of_mem _ (List.mem_cons_of_mem _ ((List.dropWhile_suffix _).subset (List.mem_of_mem_drop hx)))
    split at h
    · split at h
      · split at h
        · cases h
          exact local_ rest fun x hx => List.mem_cons_of_mem _ (List.mem_cons_of_mem _ hx)
        · split at h
          · cases h
            exact local_ _ hafter
          · obtain ⟨host, hh, he⟩ := Option.map_eq_some_iff.1 h
            cases he
            refine ⟨clean_noAuthority ?_, clean_parsePath (ht.of_subset hafter)⟩
            split
            · exact clean_nil
            · exact hhost _ _ _ hh
      · cases h
        exact local_ _ fun x hx => List.mem_cons_of_mem _ hx
    · cases h
      exact local_ _ fun x hx => hx
  · cases h
    refine local_ _ fun x hx => ?_
    split at hx
    · cases hx
    · exact hx
  · cases h
    exact local_ _ fun x hx => hx

private theorem clean_parseOther (h : parseOther hostParser scheme text = some (a, path)) (ht : Clean text) :
    Clean a.text ∧ Clean path.text := by
  unfold parseOther at h
  split at h
  · rename_i rest
    have hrest : Clean rest := ht.of_subset fun c hc => List.mem_cons_of_mem _ (List.mem_cons_of_mem _ hc)
    obtain ⟨b, hb, he⟩ := Option.map_eq_some_iff.1 h
    have hauth := clean_parseAuthority hhost hb (hrest.of_subset fun c hc => (List.takeWhile_prefix _).subset hc)
    split at he
    · cases he
      exact ⟨hauth, clean_nil⟩
    · rename_i c p hp
      cases he
      refine ⟨hauth, clean_parsePath (hrest.of_subset fun x hx => ?_)⟩
      exact (List.dropWhile_suffix (· ≠ '/')).subset (hp ▸ List.mem_cons_of_mem c hx)
  · cases h
    exact ⟨clean_nil, clean_parsePath (ht.of_subset fun c hc => List.mem_cons_of_mem _ hc)⟩
  · cases h
    exact ⟨clean_nil, ht.percentEncode⟩

private theorem clean_parseHierarchy (h : parseHierarchy hostParser scheme text = some (a, path)) (ht : Clean text) :
    Clean a.text ∧ Clean path.text := by
  unfold parseHierarchy at h
  split at h
  · exact clean_parseFile hhost h ht
  split at h
  · exact clean_parseSpecial hhost h ht
  · exact clean_parseOther hhost h ht

end Hierarchy

private theorem clean_pathMark (u : Url) : Clean u.pathMark := by
  unfold Url.pathMark
  split <;> simp [Clean]

private theorem notMem_queryText {s q : List Char} (h : queryText s = some q) : '#' ∉ q := by
  unfold queryText at h
  split at h
  · cases h
    intro hc
    simpa using List.mem_takeWhile_imp hc
  · cases h

/-- A parsed URL: no `?` and no `#` before the query, no `#` in the query. -/
theorem parse_wf {hostParser : HostParser} (hhost : hostParser.Clean) {s : List Char} {u : Url}
    (h : parse hostParser s = some u) : u.Wf := by
  unfold parse at h
  split at h
  · cases h
  rename_i scheme rest hscheme
  obtain ⟨⟨a, path⟩, hpath, rfl⟩ := Option.map_eq_some_iff.1 h
  obtain ⟨hauth, hp⟩ := clean_parseHierarchy hhost hpath (clean_takeWhile rest)
  constructor
  · exact Clean.append (clean_splitScheme hscheme)
      (Clean.cons (by decide) (Clean.append (Clean.append hauth (clean_pathMark _)) hp))
  · intro q hq
    obtain ⟨t, ht, rfl⟩ := Option.map_eq_some_iff.1 hq
    exact notMem_percentEncode (by decide) (notMem_queryText ht)

/-! ### Cutting the query out -/

/-- The query of a well-formed URL is the text between its `?` and its `#`. -/
theorem queryOf_serialize {u : Url} (h : u.Wf) : queryOf u.serialize = u.query.getD [] := by
  have hhead : ∀ c ∈ u.head, decide (c ≠ '#') = true := fun c hc => by simpa using (h.head c hc).2
  have hhead' : ∀ c ∈ u.head, decide (c ≠ '?') = true := fun c hc => by simpa using (h.head c hc).1
  have hfrag : (u.fragment.elim [] ('#' :: ·)).takeWhile (· ≠ '#') = [] := by
    cases u.fragment <;> simp
  unfold queryOf Url.serialize
  cases hq : u.query with
  | none =>
    simp only [Option.elim_none, List.append_nil, Option.getD_none]
    rw [List.takeWhile_append_of_pos hhead, hfrag, List.append_nil, List.dropWhile_eq_nil_iff.2 hhead']
    rfl
  | some q =>
    have hq' : ∀ c ∈ '?' :: q, decide (c ≠ '#') = true := by
      intro c hc
      rcases List.mem_cons.1 hc with rfl | hc
      · decide
      · have := h.query q hq
        simp only [ne_eq, decide_not, Bool.not_eq_eq_eq_not, Bool.not_true, decide_eq_false_iff_not]
        rintro rfl
        exact this hc
    simp only [Option.elim_some, Option.getD_some, List.append_assoc]
    rw [List.takeWhile_append_of_pos hhead, List.takeWhile_append_of_pos hq', hfrag, List.append_nil,
      List.dropWhile_append_of_pos hhead']
    simp

/-! ### Appending pairs -/

private theorem notMem_serializePair {name value : List Char} : '#' ∉ Form.serializePair name value := by
  intro h
  have := Form.mem_serializePair h
  revert this
  decide

theorem Url.Wf.queryPairsMut {u : Url} (h : u.Wf) : u.queryPairsMut.Wf := by
  refine ⟨h.head, fun q hq => ?_⟩
  cases hq
  cases hu : u.query with
  | none => simp
  | some q => exact h.query q hu

/-- Opening the query adds no pair. -/
@[simp] theorem pairs_queryPairsMut (u : Url) : u.queryPairsMut.pairs = u.pairs := rfl

theorem Url.Wf.appendPair {u : Url} (h : u.Wf) (name value : List Char) : (u.appendPair name value).Wf := by
  refine ⟨h.head, fun q hq => ?_⟩
  unfold Url.appendPair at hq
  dsimp only at hq
  split at hq
  · cases hq
    exact notMem_serializePair
  · cases hq
    have hold : '#' ∉ u.query.getD [] := by
      cases hu : u.query with
      | none => simp
      | some q => exact h.query q hu
    simp [hold, notMem_serializePair]

/-- Appending a pair adds it behind the pairs there are. -/
theorem pairs_appendPair (u : Url) (name value : List Char) :
    (u.appendPair name value).pairs = u.pairs ++ [(name, value)] := by
  unfold Url.pairs Url.appendPair
  dsimp only
  split
  · rename_i h
    rw [h, Option.getD_some, Form.parse_serializePair]
    rfl
  · rw [Option.getD_some, encode_append, encode_ascii_cons (by decide)]
    exact (Form.parse_append _ _).trans (by rw [Form.parse_serializePair])

theorem Url.Wf.appendPairs {u : Url} (h : u.Wf) (pairs : List (List Char × List Char)) : (u.appendPairs pairs).Wf := by
  induction pairs generalizing u with
  | nil => exact h
  | cons pair pairs ih => exact ih (h.appendPair pair.1 pair.2)

/-- Appended pairs stand behind the pairs there are, in order. -/
theorem pairs_appendPairs (u : Url) (pairs : List (List Char × List Char)) :
    (u.appendPairs pairs).pairs = u.pairs ++ pairs := by
  induction pairs generalizing u with
  | nil => exact (List.append_nil _).symm
  | cons pair pairs ih =>
    have hstep : (u.appendPairs (pair :: pairs)).pairs = ((u.appendPair pair.1 pair.2).appendPairs pairs).pairs := rfl
    rw [hstep, ih, pairs_appendPair, List.append_assoc, List.singleton_append]

end Whatwg
