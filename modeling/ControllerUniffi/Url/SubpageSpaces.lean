import ControllerUniffi.Url.Subpage

/-!
# Spaces behind a URL

C0 controls and spaces at the end of a URL are dropped, but not in front of a name that is put behind it.  There they
are escaped in the last segment or in the host, or no host can have them, so no such page is below the URL
(`not_isSubpage_of_spaces`).
-/

namespace Whatwg

open Text

/-! ### Escaped spaces -/

/-- The escape of a C0 control or a space is the end of no dot segment. -/
theorem percentEncode_space {c : Char} (hc : isC0OrSpace c = true) :
    (percentEncode pathSet [c]).length = 3 ∧ (percentEncode pathSet [c]).map Char.toLower ≠ "%2e".toList ∧
      endsIn (· = '.') ((percentEncode pathSet [c]).map Char.toLower) = false := by
  have hascii : c.toNat < 0x80 := by
    have : c.toNat ≤ 0x20 := of_decide_eq_true hc
    omega
  exact forall_ascii (P := fun c => isC0OrSpace c = true →
    (percentEncode pathSet [c]).length = 3 ∧ (percentEncode pathSet [c]).map Char.toLower ≠ "%2e".toList ∧
      endsIn (· = '.') ((percentEncode pathSet [c]).map Char.toLower) = false) (by decide +kernel) hascii hc

theorem isSlash_space {c : Char} (hc : isC0OrSpace c = true) (special : Bool) : isSlash special c = false := by
  cases h : isSlash special c with
  | false => rfl
  | true =>
    simp only [isSlash, Bool.or_eq_true, decide_eq_true_eq, Bool.and_eq_true] at h
    rcases h with rfl | ⟨_, rfl⟩ <;> cases hc

private theorem length_text_append (l : List (List Char)) (seg : List Char) :
    (Path.segments (l ++ [seg])).text.length = (Path.segments l).text.length + 1 + seg.length := by
  rw [Path.text_append, List.length_append]
  simp [Path.text]
  omega

private theorem length_text_shorten (file : Bool) (l : List (List Char)) :
    (Path.segments (shorten file l)).text.length ≤ (Path.segments l).text.length := by
  unfold shorten
  split
  · split
    · exact Nat.le_refl _
    · exact Nat.zero_le _
  · rcases List.eq_nil_or_concat l with rfl | ⟨l, seg, rfl⟩
    · exact Nat.le_refl _
    · rw [List.concat_eq_append, List.dropLast_concat, length_text_append]
      omega

/-- A segment makes a path longer by itself and its slash at most. -/
theorem length_text_pushSegment (file last : Bool) (l : List (List Char)) (seg : List Char) :
    (Path.segments (pushSegment file last l seg)).text.length ≤ (Path.segments l).text.length + 1 + seg.length := by
  have hdots : ∀ l' : List (List Char), (Path.segments l').text.length ≤ (Path.segments l).text.length →
      (Path.segments (l' ++ if last = true then [[]] else [])).text.length ≤
        (Path.segments l).text.length + 1 + seg.length := by
    intro l' h
    cases last with
    | true =>
      rw [if_pos rfl, length_text_append, List.length_nil]
      omega
    | false =>
      rw [if_neg (by decide), List.append_nil]
      omega
  unfold pushSegment
  split
  · exact hdots _ (length_text_shorten file l)
  split
  · exact hdots l (Nat.le_refl _)
  split
  · rename_i hdrive
    obtain ⟨_, rfl, hdrive⟩ := hdrive
    have hlen : seg.length = 2 := by
      unfold isDriveLetter at hdrive
      split at hdrive
      · rfl
      · cases hdrive
    rw [hlen]
    exact Nat.le_refl _
  · rw [length_text_append]

private theorem exists_cons_of_head {p : Char → Bool} {s : List Char} (h : ¬ ∀ c, s.head? = some c → p c = false) :
    ∃ c rest, s = c :: rest ∧ p c = true := by
  cases s with
  | nil => exact absurd (by simp) h
  | cons c rest => exact ⟨c, rest, rfl, by simpa using h⟩

private theorem ne_slash_of_head {s : List Char} (h : ∀ c, s.head? = some c → isSlash false c = false) :
    ∀ c, s.head? = some c → c ≠ '/' := by
  rintro c hc rfl
  cases h _ hc

section

variable {hostParser : HostParser} {scheme text spaces name q : List Char}
  (hne : spaces ≠ []) (hspaces : ∀ c ∈ spaces, isC0OrSpace c = true)

include hne hspaces

/-- A segment that ends in spaces is kept as it is. -/
theorem pushSegment_spaces (file last : Bool) (l : List (List Char)) (seg : List Char) :
    pushSegment file last l (percentEncode pathSet (seg ++ spaces)) = l ++ [percentEncode pathSet (seg ++ spaces)] := by
  obtain ⟨t, c, rfl⟩ : ∃ t c, spaces = t ++ [c] := by
    rcases List.eq_nil_or_concat spaces with rfl | ⟨t, c, rfl⟩
    · exact absurd rfl hne
    · exact ⟨t, c, List.concat_eq_append⟩
  obtain ⟨hlen, hescape, hdot⟩ := percentEncode_space (hspaces c (by simp))
  rw [← List.append_assoc, percentEncode_append]
  generalize percentEncode pathSet (seg ++ t) = before at *
  generalize percentEncode pathSet [c] = escape at *
  have hescapeNe : escape.map Char.toLower ≠ [] := by
    intro h
    rw [List.map_eq_nil_iff.1 h] at hlen
    cases hlen
  have hdots : ¬ (isDoubleDot (before ++ escape) = true ∨ isSingleDot (before ++ escape) = true) := by
    intro h
    have hend := forall_mem_of_all
      (P := fun d => d.drop (d.length - 3) = "%2e".toList ∨ endsIn (· = '.') d = true) (by decide) _ (mem_of_isDot h)
    rw [List.map_append, endsIn_append hescapeNe, hdot, List.length_append, List.length_map, List.length_map, hlen,
      Nat.add_sub_cancel] at hend
    have hdrop : (before.map Char.toLower ++ escape.map Char.toLower).drop before.length = escape.map Char.toLower := by
      rw [← List.length_map (f := Char.toLower), List.drop_left]
    rw [hdrop] at hend
    rcases hend with hend | hend
    · exact hescape hend
    · cases hend
  have hdrive : isDriveLetter (before ++ escape) = false := by
    unfold isDriveLetter
    split
    · rename_i heq
      have := congrArg List.length heq
      simp [hlen] at this
    · rfl
  simp only [not_or, Bool.not_eq_true] at hdots
  simp [pushSegment, hdots, hdrive]

/-- Spaces behind a path make it longer, so it is not what it would be without them. -/
theorem path_of_spaces (hname : ∀ c ∈ name, c.isAlphanum = true) (scheme q : List Char) :
    (Path.segments (parsePath scheme (q ++ spaces ++ '/' :: name))).text ≠
      trimEnd '/' (Path.segments (parsePath scheme q)).text ++ '/' :: name := by
  obtain ⟨init, seg, _, _, _, hsplit⟩ := exists_lastSegment (isSlash (isSpecial scheme)) q
  have hslash : ∀ c ∈ spaces, isSlash (isSpecial scheme) c = false := fun c hc => isSlash_space (hspaces c hc) _
  have hq := hsplit [] (by simp)
  rw [List.append_nil, List.append_nil] at hq
  intro heq
  rw [parsePath_append_name hname, pathBehind_of_splitOnP (hsplit spaces hslash), pushSegment_spaces hne hspaces,
    parsePath_of_splitOnP hq] at heq
  have hlen := congrArg List.length (List.append_cancel_right heq)
  have htrim : (trimEnd '/' (Path.segments (pushSegment (scheme = "file".toList) true
      (enterSegments (scheme = "file".toList) [] init) (percentEncode pathSet seg))).text).length ≤ _ :=
    (List.rdropWhile_prefix _ _).length_le
  have hpush := length_text_pushSegment (scheme = "file".toList) true (enterSegments (scheme = "file".toList) [] init)
    (percentEncode pathSet seg)
  have hpos := List.length_pos_iff.2 (percentEncode_ne_nil pathSet hne)
  rw [length_text_append, percentEncode_append, List.length_append] at hlen
  omega

theorem not_isSubpage_of_path (hname : ∀ c ∈ name, c.isAlphanum = true) {o : Option Authority} {p k : Authority × Path}
    (hp : some p = o.map fun a => (a, .segments (parsePath scheme (q ++ spaces ++ '/' :: name))))
    (hk : some k = o.map fun a => (a, .segments (parsePath scheme q))) : ¬ IsSubpage name p k := by
  obtain ⟨a, rfl, rfl⟩ := Option.map_eq_some_iff.1 hp.symm
  cases hk
  exact fun h => path_of_spaces hne hspaces hname scheme q h.2

private theorem exists_space (s : List Char) : ∃ c ∈ s ++ spaces, isC0OrSpace c = true := by
  obtain ⟨c, t, rfl⟩ := List.exists_cons_of_ne_nil hne
  exact ⟨c, by simp, hspaces c List.mem_cons_self⟩

/-- An opaque host is longer for the spaces, and the host of a special URL cannot have them. -/
theorem not_sameHost_of_spaces (hhosts : hostParser.Standard) {a b : Authority}
    (ha : parseAuthority hostParser scheme (text ++ spaces) = some a)
    (hb : parseAuthority hostParser scheme text = some b) :
    ¬ a.SameHost b := by
  obtain ⟨host, hhost, hahost⟩ := host_of_parseAuthority ha
  obtain ⟨host', hhost', hbhost⟩ := host_of_parseAuthority hb
  rw [hostPart_append hne hspaces ha] at hhost
  have hmem := exists_space hne hspaces (hostPart text)
  cases hspecial : isSpecial scheme with
  | true =>
    rw [hspecial, hhosts.refuses true _ (.inl rfl) hmem] at hhost
    cases hhost
  | false =>
    rw [hspecial] at hhost hhost'
    by_cases hbracket : (hostPart text ++ spaces).head? = some '['
    · rw [hhosts.refuses false _ (.inr hbracket) hmem] at hhost
      cases hhost
    have hbracket' : (hostPart text).head? ≠ some '[' := by
      intro h
      rw [List.head?_append, h] at hbracket
      exact hbracket rfl
    rintro ⟨heq, _⟩
    have hlonger : percentEncode c0Set (hostPart text ++ spaces) ≠ [] := percentEncode_ne_nil c0Set (by simp [hne])
    rw [hahost, hbhost, hhosts.opaque_host _ _ hbracket hhost, hhosts.opaque_host _ _ hbracket' hhost',
      Option.filter_some, if_pos (decide_eq_true hlonger), Option.filter_some] at heq
    split at heq
    · have hlen := congrArg List.length (Option.some.inj heq)
      have hpos := List.length_pos_iff.2 (percentEncode_ne_nil c0Set hne)
      rw [percentEncode_append, List.length_append] at hlen
      omega
    · cases heq

private theorem head_append_spaces {special : Bool} (h : ∀ c, text.head? = some c → isSlash special c = false)
    (t : List Char) : ∀ c, (text ++ spaces ++ t).head? = some c → isSlash special c = false := by
  cases text with
  | nil =>
    obtain ⟨d, s, rfl⟩ := List.exists_cons_of_ne_nil hne
    intro c hc
    cases hc
    exact isSlash_space (hspaces _ List.mem_cons_self) special
  | cons c rest => exact h

private theorem not_isSubpage_special (hspecial : isSpecial scheme = true) (hfile : scheme ≠ "file".toList)
    (hhosts : hostParser.Standard) (hname : ∀ c ∈ name, c.isAlphanum = true) {p k : Authority × Path}
    (hp : parseHierarchy hostParser scheme (text ++ spaces ++ '/' :: name) = some p)
    (hk : parseHierarchy hostParser scheme text = some k) : ¬ IsSubpage name p k := by
  have hall : ∃ c ∈ text, isSlash true c = false := by
    by_contra hnot
    rw [parseHierarchy_slashes hspecial hfile fun c hc => by_contra fun h => hnot ⟨c, hc, by simpa using h⟩] at hk
    cases hk
  obtain ⟨slashes, authority, q, rfl, hslashes, hauthorityNe, hauthority, hq⟩ := exists_authority hall
  have hkey := parseHierarchy_special hostParser hspecial hfile hslashes hauthorityNe hauthority hq
  rw [hk] at hkey
  cases q with
  | nil =>
    -- the spaces would belong to the host
    have hslash : ∀ c ∈ authority ++ spaces, isSlash true c = false := by
      intro c hc
      exact (List.mem_append.1 hc).elim (hauthority c) fun hmem => isSlash_space (hspaces c hmem) _
    have hpage := parseHierarchy_special hostParser (p := '/' :: name) hspecial hfile hslashes
      (show authority ++ spaces ≠ [] by simp [hne]) hslash (by simp [isSlash])
    rw [← List.append_assoc slashes, ← List.append_nil (slashes ++ authority), hp] at hpage
    obtain ⟨a, ha, rfl⟩ := Option.map_eq_some_iff.1 hpage.symm
    obtain ⟨b, hb, rfl⟩ := Option.map_eq_some_iff.1 hkey.symm
    exact fun h => not_sameHost_of_spaces hne hspaces hhosts ha hb h.1
  | cons c q =>
    have hpage := parseHierarchy_special hostParser (p := c :: (q ++ spaces ++ '/' :: name)) hspecial hfile
      hslashes hauthorityNe hauthority (by simpa using hq)
    refine not_isSubpage_of_path hne hspaces hname (q := q) ?_ hkey
    rw [← hp]
    simpa using hpage

private theorem isDriveLetter_spaces (s : List Char) : isDriveLetter (s ++ spaces) = false := by
  have hend : endsIn isC0OrSpace (s ++ spaces) = true := (endsIn_append hne).trans (endsIn_of_forall hne hspaces)
  unfold isDriveLetter
  split
  · rename_i c d heq
    rw [heq] at hend
    change isC0OrSpace d = true at hend
    have hmarks : d ≠ ':' ∧ d ≠ '|' := by constructor <;> (rintro rfl; cases hend)
    simp [hmarks]
  · rfl

/-- Behind two slashes, the spaces are part of the path, or of a host that cannot have them. -/
private theorem not_isSubpage_file_two (hhosts : hostParser.Standard) (hname : ∀ c ∈ name, c.isAlphanum = true)
    {c d : Char} (hc : isSlash true c = true) (hd : isSlash true d = true) {rest : List Char} {p k : Authority × Path}
    (hp : parseFile hostParser scheme (c :: d :: rest ++ spaces ++ '/' :: name) = some p)
    (hk : parseFile hostParser scheme (c :: d :: rest) = some k) : ¬ IsSubpage name p k := by
  obtain ⟨host, q, rfl, hhost, hq⟩ := exists_cut (isSlash true) rest
  have hkey := parseFile_two hostParser scheme hc hd hhost hq
  cases q with
  | nil =>
    -- the spaces would belong to the host
    have hhostSlash : ∀ c ∈ host ++ spaces, isSlash true c = false := by
      intro c hc
      exact (List.mem_append.1 hc).elim (hhost c) fun hmem => isSlash_space (hspaces c hmem) _
    have hpage := parseFile_two hostParser scheme (p := '/' :: name) hc hd hhostSlash (by simp [isSlash])
    have hmem := exists_space hne hspaces host
    rw [isDriveLetter_spaces hne hspaces, if_neg (by decide), if_neg (by simp [hne]),
      hhosts.refuses true _ (.inl rfl) hmem] at hpage
    have htext : c :: d :: (host ++ []) ++ spaces ++ '/' :: name = c :: d :: (host ++ spaces ++ '/' :: name) := by simp
    rw [htext, hpage] at hp
    cases hp
  | cons e q =>
    have hpage := parseFile_two hostParser scheme (p := e :: (q ++ spaces ++ '/' :: name)) hc hd
      hhost (by simpa using hq)
    have htext : c :: d :: (host ++ e :: q) ++ spaces ++ '/' :: name =
        c :: d :: (host ++ e :: (q ++ spaces ++ '/' :: name)) := by simp
    rw [htext] at hp
    rw [hp] at hpage
    rw [hk] at hkey
    by_cases hdrive : isDriveLetter host = true
    · rw [if_pos hdrive] at hkey hpage
      refine not_isSubpage_of_path hne hspaces hname (hpage.trans ?_) hkey
      rw [localFile]
      simp
    rw [if_neg hdrive] at hkey hpage
    by_cases hnil : host = []
    · rw [if_pos hnil] at hkey hpage
      exact not_isSubpage_of_path hne hspaces hname hpage hkey
    · rw [if_neg hnil] at hkey hpage
      exact not_isSubpage_of_path hne hspaces hname hpage hkey

private theorem not_isSubpage_file (hhosts : hostParser.Standard) (hname : ∀ c ∈ name, c.isAlphanum = true)
    {p k : Authority × Path} (hp : parseFile hostParser scheme (text ++ spaces ++ '/' :: name) = some p)
    (hk : parseFile hostParser scheme text = some k) : ¬ IsSubpage name p k := by
  by_cases hhead : ∀ c, text.head? = some c → isSlash true c = false
  · rw [parseFile_of_head (head_append_spaces hne hspaces hhead ('/' :: name))] at hp
    rw [parseFile_of_head hhead] at hk
    exact not_isSubpage_of_path hne hspaces hname hp.symm hk.symm
  obtain ⟨c, rest, rfl, hc⟩ := exists_cons_of_head hhead
  by_cases hhead : ∀ d, rest.head? = some d → isSlash true d = false
  · rw [List.cons_append, List.cons_append, parseFile_one hc (head_append_spaces hne hspaces hhead ('/' :: name))] at hp
    rw [parseFile_one hc hhead] at hk
    exact not_isSubpage_of_path hne hspaces hname hp.symm hk.symm
  obtain ⟨d, rest, rfl, hd⟩ := exists_cons_of_head hhead
  exact not_isSubpage_file_two hne hspaces hhosts hname hc hd hp hk

/-- An opaque path is longer for the spaces. -/
private theorem not_isSubpage_other_noSlash (hname : ∀ c ∈ name, c.isAlphanum = true) {p k : Authority × Path}
    (hhead : ∀ c, text.head? = some c → isSlash false c = false)
    (hp : parseOther hostParser scheme (text ++ spaces ++ '/' :: name) = some p)
    (hk : parseOther hostParser scheme text = some k) : ¬ IsSubpage name p k := by
  rw [parseOther_noSlash (ne_slash_of_head hhead)] at hk
  rw [parseOther_noSlash (ne_slash_of_head (head_append_spaces hne hspaces hhead _))] at hp
  cases hp
  cases hk
  rintro ⟨_, heq⟩
  have hlen := congrArg List.length heq
  have htrim : (trimEnd '/' (percentEncode c0Set text)).length ≤ _ := (List.rdropWhile_prefix _ _).length_le
  have hpos := List.length_pos_iff.2 (percentEncode_ne_nil c0Set hne)
  have hkeep : percentEncode c0Set ('/' :: name) = '/' :: name :=
    percentEncode_kept fun c hc => (List.mem_cons.1 hc).elim .inr fun hmem => .inl (hname c hmem)
  simp only [Path.text, percentEncode_append, hkeep, List.length_append] at hlen
  omega

private theorem not_isSubpage_other_two (hhosts : hostParser.Standard) (hname : ∀ c ∈ name, c.isAlphanum = true)
    {rest : List Char} {p k : Authority × Path}
    (hp : parseOther hostParser scheme ('/' :: '/' :: rest ++ spaces ++ '/' :: name) = some p)
    (hk : parseOther hostParser scheme ('/' :: '/' :: rest) = some k) : ¬ IsSubpage name p k := by
  obtain ⟨host, q, rfl, hhost, hq⟩ := exists_cut (fun c => decide (c = '/')) rest
  have hhostSlash : '/' ∉ host := fun hmem => by simpa using hhost _ hmem
  have hkey := parseOther_two hostParser scheme hhostSlash fun c hc => of_decide_eq_true (hq c hc)
  rw [hk] at hkey
  cases q with
  | nil =>
    have hspacesSlash : '/' ∉ host ++ spaces := by
      intro hmem
      rcases List.mem_append.1 hmem with hmem | hmem
      · exact hhostSlash hmem
      · cases hspaces _ hmem
    have hpage := parseOther_two hostParser scheme (p := '/' :: name) hspacesSlash (by simp)
    have htext : '/' :: '/' :: (host ++ []) ++ spaces ++ '/' :: name =
        '/' :: '/' :: (host ++ spaces ++ '/' :: name) := by simp
    rw [htext, hpage] at hp
    obtain ⟨a, ha, rfl⟩ := Option.map_eq_some_iff.1 hp
    obtain ⟨b, hb, rfl⟩ := Option.map_eq_some_iff.1 hkey.symm
    exact fun h => not_sameHost_of_spaces hne hspaces hhosts ha hb h.1
  | cons e q =>
    have hpage := parseOther_two hostParser scheme (p := e :: (q ++ spaces ++ '/' :: name))
      hhostSlash fun c hc => of_decide_eq_true (hq c hc)
    have htext : '/' :: '/' :: (host ++ e :: q) ++ spaces ++ '/' :: name =
        '/' :: '/' :: (host ++ e :: (q ++ spaces ++ '/' :: name)) := by simp
    rw [htext, hpage] at hp
    rw [if_neg (by simp)] at hp hkey
    exact not_isSubpage_of_path hne hspaces hname hp.symm hkey

private theorem not_isSubpage_other (hhosts : hostParser.Standard) (hname : ∀ c ∈ name, c.isAlphanum = true)
    {p k : Authority × Path} (hp : parseOther hostParser scheme (text ++ spaces ++ '/' :: name) = some p)
    (hk : parseOther hostParser scheme text = some k) : ¬ IsSubpage name p k := by
  by_cases hhead : ∀ c, text.head? = some c → isSlash false c = false
  · exact not_isSubpage_other_noSlash hne hspaces hname hhead hp hk
  obtain ⟨c, rest, rfl, hc⟩ := exists_cons_of_head hhead
  obtain rfl : c = '/' := by simpa [isSlash] using hc
  by_cases hhead : ∀ d, rest.head? = some d → isSlash false d = false
  · have hpage := parseOther_one hostParser scheme
      (ne_slash_of_head (head_append_spaces hne hspaces hhead ('/' :: name)))
    have hkey := parseOther_one hostParser scheme (ne_slash_of_head hhead)
    exact not_isSubpage_of_path (o := some noAuthority) hne hspaces hname (hp.symm.trans hpage) (hk.symm.trans hkey)
  obtain ⟨d, rest, rfl, hd⟩ := exists_cons_of_head hhead
  obtain rfl : d = '/' := by simpa [isSlash] using hd
  exact not_isSubpage_other_two hne hspaces hhosts hname hp hk

/-- With spaces behind the URL, the page is not below it. -/
theorem not_isSubpage_of_spaces (hhosts : hostParser.Standard) (hname : ∀ c ∈ name, c.isAlphanum = true)
    {p k : Authority × Path} (hp : parseHierarchy hostParser scheme (text ++ spaces ++ '/' :: name) = some p)
    (hk : parseHierarchy hostParser scheme text = some k) : ¬ IsSubpage name p k := by
  by_cases hfile : scheme = "file".toList
  · subst hfile
    rw [parseHierarchy_file] at hp hk
    exact not_isSubpage_file hne hspaces hhosts hname hp hk
  cases hspecial : isSpecial scheme with
  | true => exact not_isSubpage_special hne hspaces hspecial hfile hhosts hname hp hk
  | false =>
    rw [parseHierarchy_other hspecial] at hp hk
    exact not_isSubpage_other hne hspaces hhosts hname hp hk

end

end Whatwg
