import ControllerUniffi.Url.Append

/-!
# A page below a URL

A name is put behind the text of a URL with a slash in between, once the slashes at its end are gone.  Whether the
result is the page of that name below the URL is decided by the text (`decides_parseHierarchy`): no slash may be left
at its end, and its path may end in no more slashes than were taken away, or in the one that a dot segment leaves.
-/

namespace Whatwg

open Text

/-- The same host, where an empty one is none, and the same port. -/
def Authority.SameHost (a b : Authority) : Prop := a.host.filter (· ≠ []) = b.host.filter (· ≠ []) ∧ a.port = b.port

/-- The page called `name` below `key`. -/
def IsSubpage (name : List Char) (page key : Authority × Path) : Prop :=
  page.1.SameHost key.1 ∧ page.2.text = trimEnd '/' key.2.text ++ '/' :: name

/-- No slash is left at the end, or only the two in front of an empty host. -/
def EndsClear (scheme text : List Char) : Prop :=
  endsIn (isSlash (isSpecial scheme)) text = false ∨
    (scheme = "file".toList ∨ isSpecial scheme = false) ∧
      ∃ c d, text = [c, d] ∧ isSlash (isSpecial scheme) c = true ∧ isSlash (isSpecial scheme) d = true

/-- Of a text from which `n` slashes were taken: whether `page` is the page below `key`. -/
def Decides (name : List Char) (n : Nat) (clear : Prop) (page key : Option (Authority × Path)) : Prop :=
  ∀ p, page = some p → ((∃ k, key = some k ∧ IsSubpage name p k) ↔
    clear ∧ ∃ k, key = some k ∧ trailing '/' k.2.text ≤ max n 1)

section

variable {name : List Char} {n : Nat} {clear : Prop} {page key : Option (Authority × Path)}

theorem decides_of_none (h : key = none) : Decides name n clear page key := by
  intro p _
  simp [h]

/-- The text up to the name is the path, as far as it was read. -/
theorem decides_of_read {P : List Char} (hpage : ∀ p, page = some p → p.2.text = P ++ '/' :: name)
    (hkey : ∀ p k, page = some p → key = some k → p.1.SameHost k.1 ∧
      ∃ m ≤ max n 1, k.2.text = P ++ List.replicate m '/' ∧ (trailing '/' P ≠ 0 → clear → m = max n 1))
    (hclear : ¬ clear → trailing '/' P ≠ 0) : Decides name n clear page key := by
  intro p hp
  cases hk : key with
  | none => simp
  | some k =>
    obtain ⟨hhost, m, hm, htext, hslashes⟩ := hkey p k hp hk
    have hsub : IsSubpage name p k ↔ trailing '/' P = 0 := by
      rw [IsSubpage, hpage p hp, htext, trimEnd_append, trailing_eq_zero_iff]
      constructor
      · rintro ⟨_, h⟩
        exact (List.append_cancel_right h).symm
      · intro h
        exact ⟨hhost, by rw [h]⟩
    simp only [Option.some.injEq, exists_eq_left']
    rw [hsub, htext, trailing_append]
    constructor
    · intro h
      exact ⟨by_contra fun hnot => hclear hnot h, by omega⟩
    · rintro ⟨hyes, hle⟩
      by_contra hne
      have := hslashes hne hyes
      omega

theorem decides_of_map {o : Option Authority} {path path' : Path} {P : List Char} {m : Nat}
    (hpage : page = o.map fun a => (a, path)) (hkey : key = o.map fun a => (a, path'))
    (hpath : path.text = P ++ '/' :: name) (hpath' : path'.text = P ++ List.replicate m '/') (hm : m ≤ max n 1)
    (hslashes : trailing '/' P ≠ 0 → clear → m = max n 1) (hclear : ¬ clear → trailing '/' P ≠ 0) :
    Decides name n clear page key := by
  cases o with
  | none => exact decides_of_none hkey
  | some a =>
    refine decides_of_read (P := P) ?_ ?_ hclear
    · rintro p hp
      cases hpage.symm.trans hp
      exact hpath
    · rintro p k hp hk
      cases hpage.symm.trans hp
      cases hkey.symm.trans hk
      exact ⟨⟨rfl, rfl⟩, m, hm, hpath', hslashes⟩

/-- A path that does not end in the name is lost. -/
theorem decides_of_lost (hpage : ∀ p, page = some p → ¬ '/' :: name <:+ p.2.text) (hclear : ¬ clear) :
    Decides name n clear page key := by
  intro p hp
  refine iff_of_false ?_ fun h => hclear h.1
  rintro ⟨k, _, _, htext⟩
  exact hpage p hp (htext ▸ List.suffix_append _ _)

end

/-! ### Inside the path and behind the authority -/

section

variable {hostParser : HostParser} {scheme text q name : List Char} {o : Option Authority} {clear : Prop}

/-- Slashes alone are empty segments. -/
theorem parsePath_slashes (scheme : List Char) (n : Nat) :
    parsePath scheme (List.replicate n '/') = List.replicate (n + 1) [] := by
  have h := parsePath_plain (replicate_alphanum n) scheme
  rwa [flatMap_replicate_nil, List.nil_append] at h

theorem eq_slash_of_head? {n : Nat} {c : Char} (h : (List.replicate n '/').head? = some c) : c = '/' :=
  List.eq_of_mem_replicate (List.mem_of_head? h)

theorem parsePath_append_slashes (scheme q : List Char) (n : Nat) :
    parsePath scheme (q ++ List.replicate (n + 1) '/') = pathBehind scheme q ++ List.replicate (n + 1) [] := by
  have h := parsePath_append_plain (replicate_alphanum n) scheme q
  rwa [← List.replicate_succ, flatMap_replicate_nil] at h

theorem parsePath_name (hname : ∀ c ∈ name, c.isAlphanum = true) (scheme : List Char) :
    parsePath scheme name = [name] := by
  simpa using parsePath_plain (show ∀ s ∈ [name], ∀ c ∈ s, c.isAlphanum = true by simpa using hname) scheme

theorem text_parsePath_name (hname : ∀ c ∈ name, c.isAlphanum = true) (scheme : List Char) :
    (Path.segments (parsePath scheme name)).text = [] ++ '/' :: name := by
  rw [parsePath_name hname]
  simp [Path.text]

theorem parsePath_append_name (hname : ∀ c ∈ name, c.isAlphanum = true) (scheme q : List Char) :
    (Path.segments (parsePath scheme (q ++ '/' :: name))).text =
      (Path.segments (pathBehind scheme q)).text ++ '/' :: name := by
  have h := parsePath_append_plain (show ∀ s ∈ [name], ∀ c ∈ s, c.isAlphanum = true by simpa using hname) scheme q
  rw [List.flatMap_cons, List.flatMap_nil, List.append_nil] at h
  rw [h, Path.text_append]
  simp [Path.text]

theorem text_replicate (n : Nat) : (Path.segments (List.replicate n [])).text = List.replicate n '/' :=
  flatMap_replicate_nil n

theorem decides_of_inPath (hname : ∀ c ∈ name, c.isAlphanum = true) (h : InPath hostParser scheme text o q)
    (hclear : clear ↔ endsIn (isSlash (isSpecial scheme)) text = false) (n : Nat) :
    Decides name n clear (parseHierarchy hostParser scheme (text ++ '/' :: name))
      (parseHierarchy hostParser scheme (text ++ List.replicate n '/')) := by
  have hend : q ≠ [] → endsIn (isSlash (isSpecial scheme)) text = endsIn (isSlash (isSpecial scheme)) q := by
    intro hne
    obtain ⟨z, hz⟩ := h.suffix
    rw [← hz, endsIn_append hne]
  -- a slash at the end of the text shows in the path
  have hshows : ¬ clear → trailing '/' (Path.segments (pathBehind scheme q)).text ≠ 0 := by
    rw [hclear, ne_eq, trailing_eq_zero, Bool.not_eq_false, Bool.not_eq_false]
    intro hslash
    rcases pathBehind_cases scheme q with ⟨_, _, hpath⟩ | ⟨⟨hne, hq⟩, _⟩
    · exact hpath
    · rw [hend hne, hq] at hslash
      cases hslash
  have hpage := h.read ('/' :: name) (by simp)
  have hkey := h.read (List.replicate n '/') fun _ => eq_slash_of_head?
  have hpath := parsePath_append_name hname scheme q
  cases n with
  | succ n =>
    refine decides_of_map hpage hkey hpath (m := n + 1) ?_ (by omega) (by omega) hshows
    rw [parsePath_append_slashes, Path.text_append, text_replicate]
  | zero =>
    simp only [List.replicate_zero, List.append_nil] at hkey ⊢
    rcases pathBehind_cases scheme q with ⟨hempty, heq, _⟩ | ⟨⟨hne, hq⟩, ⟨heq, hnot⟩ | heq⟩
    · -- the text ends in a slash
      have hslash : endsIn (isSlash (isSpecial scheme)) text = true := by
        by_cases hnil : q = []
        · exact h.slash hnil
        · rw [hend hnil, hempty.resolve_left hnil]
      refine decides_of_map hpage hkey hpath (m := 0) ?_ (by omega) (fun _ hyes => ?_) hshows
      · rw [heq, List.replicate_zero, List.append_nil]
      · rw [hclear.1 hyes] at hslash
        cases hslash
    · refine decides_of_map hpage hkey hpath (m := 0) ?_ (by omega) (fun hne => ?_) hshows
      · rw [heq, List.replicate_zero, List.append_nil]
      · exact absurd (trailing_eq_zero.2 hnot) hne
    · -- a dot segment leaves one slash behind
      refine decides_of_map hpage hkey hpath (m := 1) ?_ (by omega) (by omega) hshows
      rw [heq, Path.text_append]
      rfl

theorem decides_of_atAuthority (hname : ∀ c ∈ name, c.isAlphanum = true) (h : AtAuthority hostParser scheme text o)
    (hclear : clear) (n : Nat) :
    Decides name n clear (parseHierarchy hostParser scheme (text ++ '/' :: name))
      (parseHierarchy hostParser scheme (text ++ List.replicate n '/')) := by
  have hpath := text_parsePath_name hname scheme
  have hnot : trailing '/' [] ≠ 0 → False := by simp [trailing]
  cases n with
  | succ n =>
    refine decides_of_map (h.read name) (h.read (List.replicate n '/')) hpath (m := n + 1) ?_ (by omega) (by omega)
      (fun h => absurd hclear h)
    rw [parsePath_slashes, text_replicate, List.nil_append]
  | zero =>
    obtain ⟨path, hsegments, hstop⟩ := h.stop
    rw [List.replicate_zero, List.append_nil]
    rcases hsegments with rfl | rfl
    · exact decides_of_map (h.read name) hstop hpath (m := 0) rfl (by omega) (fun h => (hnot h).elim)
        (fun h => absurd hclear h)
    · exact decides_of_map (h.read name) hstop hpath (m := 1) rfl (by omega) (by omega) (fun h => absurd hclear h)

end

/-! ### Special schemes -/

section

variable {hostParser : HostParser} {scheme name : List Char}

/-- Unless it is one of the two short forms, a text ends clear iff its last character is no slash. -/
theorem endsClear_iff {text : List Char} (h : ∀ c d, text = [c, d] → isSlash (isSpecial scheme) c = true →
    isSlash (isSpecial scheme) d = true → isSpecial scheme = true ∧ scheme ≠ "file".toList) :
    EndsClear scheme text ↔ endsIn (isSlash (isSpecial scheme)) text = false := by
  constructor
  · rintro (hend | ⟨hscheme, c, d, htext, hc, hd⟩)
    · exact hend
    · obtain ⟨hspecial, hfile⟩ := h c d htext hc hd
      rcases hscheme with hscheme | hscheme
      · exact absurd hscheme hfile
      · rw [hspecial] at hscheme
        cases hscheme
  · exact .inl

/-- Slashes alone have no host. -/
theorem parseHierarchy_slashes (hspecial : isSpecial scheme = true) (hfile : scheme ≠ "file".toList) {text : List Char}
    (h : ∀ c ∈ text, isSlash true c = true) : parseHierarchy hostParser scheme text = none := by
  have hauthority : parseAuthority hostParser scheme [] = none := by simp [parseAuthority, splitHostPort, hspecial]
  rw [parseHierarchy, if_neg hfile, if_pos hspecial, parseSpecial, List.dropWhile_eq_nil_iff.2 h]
  simp only [List.takeWhile_nil, hauthority, Option.map_none]

theorem decides_special (hspecial : isSpecial scheme = true) (hfile : scheme ≠ "file".toList)
    (hname : ∀ c ∈ name, c.isAlphanum = true) (text : List Char) (n : Nat) :
    Decides name n (EndsClear scheme text) (parseHierarchy hostParser scheme (text ++ '/' :: name))
      (parseHierarchy hostParser scheme (text ++ List.replicate n '/')) := by
  by_cases hall : ∃ c ∈ text, isSlash true c = false
  · obtain ⟨slashes, authority, p, rfl, hslashes, hne, hauthority, hp⟩ := exists_authority hall
    have hclear : EndsClear scheme (slashes ++ authority ++ p) ↔
        endsIn (isSlash (isSpecial scheme)) (slashes ++ authority ++ p) = false :=
      endsClear_iff fun _ _ _ _ _ => ⟨hspecial, hfile⟩
    cases p with
    | nil =>
      have hat := atAuthority_special hostParser hspecial hfile hslashes hne hauthority
      rw [List.append_nil] at hclear ⊢
      exact decides_of_atAuthority hname hat (hclear.2 hat.noSlash) n
    | cons c q =>
      have hin := inPath_special hostParser hspecial hfile hslashes hne hauthority (hp c rfl) q
      exact decides_of_inPath hname hin hclear n
  · apply decides_of_none
    refine parseHierarchy_slashes hspecial hfile fun c hc => ?_
    rcases List.mem_append.1 hc with hc | hc
    · by_contra hnot
      exact hall ⟨c, hc, by simpa using hnot⟩
    · rw [List.eq_of_mem_replicate hc]
      rfl

end

/-! ### The file scheme -/

section

variable {hostParser : HostParser} {c d : Char} {rest host p name : List Char}

theorem parseHierarchy_file (hostParser : HostParser) (text : List Char) :
    parseHierarchy hostParser "file".toList text = parseFile hostParser "file".toList text := if_pos rfl

/-- A file URL with an empty host. -/
def localFile (scheme path : List Char) : Option (Authority × Path) :=
  (some { noAuthority with host := some [] }).map fun a => (a, .segments (parsePath scheme path))

theorem parseFile_of_head {scheme text : List Char} (h : ∀ c, text.head? = some c → isSlash true c = false) :
    parseFile hostParser scheme text = localFile scheme text := by
  rcases text with _ | ⟨c, _ | ⟨d, rest⟩⟩
  · rfl
  · simp [parseFile, localFile, h c rfl]
  · simp [parseFile, localFile, h c rfl]

theorem parseFile_one {scheme : List Char} (hc : isSlash true c = true)
    (h : ∀ d, rest.head? = some d → isSlash true d = false) :
    parseFile hostParser scheme (c :: rest) = localFile scheme rest := by
  rcases rest with _ | ⟨d, rest⟩
  · simp [parseFile, localFile, hc]
  · simp [parseFile, localFile, hc, h d rfl]

theorem parseFile_two (hostParser : HostParser) (scheme : List Char) (hc : isSlash true c = true)
    (hd : isSlash true d = true) (hhost : ∀ c ∈ host, isSlash true c = false) (hp : ∀ c, p.head? = some c → isSlash true c = true) :
    parseFile hostParser scheme (c :: d :: (host ++ p)) =
      if isDriveLetter host then localFile scheme (host ++ p)
      else if host = [] then localFile scheme (p.drop 1)
      else ((hostParser true host).map fun h =>
        { noAuthority with host := some (if h = "localhost".toList then [] else h) }).map fun a =>
          (a, .segments (parsePath scheme (p.drop 1))) := by
  have hnot : ∀ c ∈ host, (! isSlash true c) = true := fun c hc => by rw [hhost c hc]; rfl
  have hcut := cut_of_head (p := (! isSlash true ·)) fun c hc => by rw [hp c hc]; rfl
  simp only [parseFile, hc, hd, ↓reduceIte, List.takeWhile_append_of_pos hnot, List.dropWhile_append_of_pos hnot, hcut,
    List.append_nil, localFile, Option.map_some, Option.map_map]
  rfl

private theorem localFile_slashes (scheme : List Char) (n : Nat) :
    localFile scheme (List.replicate n '/') =
      (some { noAuthority with host := some [] }).map fun a => (a, .segments (List.replicate (n + 1) [])) := by
  rw [localFile, parsePath_slashes]

/-- Two slashes and more are an empty host and empty segments. -/
private theorem parseFile_slashes (hostParser : HostParser) (scheme : List Char) (hc : isSlash true c = true)
    (hd : isSlash true d = true) (n : Nat) : parseFile hostParser scheme (c :: d :: List.replicate n '/') =
      localFile scheme (List.replicate (n - 1) '/') := by
  have hp : ∀ c, (List.replicate n '/').head? = some c → isSlash true c = true := by
    intro c hc
    rw [eq_slash_of_head? hc]
    rfl
  have h := parseFile_two hostParser scheme hc hd (show ∀ c ∈ [], isSlash true c = false by simp) hp
  rwa [if_neg (by decide), if_pos rfl, List.drop_replicate, List.nil_append] at h

/-- What is put behind two slashes belongs to the path, unless the host is a drive letter and part of it already. -/
private theorem parseFile_two_append (hostParser : HostParser) (hc : isSlash true c = true) (hd : isSlash true d = true)
    (hhost : ∀ c ∈ host, isSlash true c = false) (hp : ∀ c, p.head? = some c → isSlash true c = true) (t : List Char)
    (ht : ∀ c, t.head? = some c → c = '/') :
    parseHierarchy hostParser "file".toList (c :: d :: (host ++ p) ++ t) =
      if isDriveLetter host then localFile "file".toList (host ++ (p ++ t))
      else if host = [] then localFile "file".toList ((p ++ t).drop 1)
      else ((hostParser true host).map fun h =>
        { noAuthority with host := some (if h = "localhost".toList then [] else h) }).map fun a =>
          (a, .segments (parsePath "file".toList ((p ++ t).drop 1))) := by
  rw [parseHierarchy_file, List.cons_append, List.cons_append, List.append_assoc, parseFile_two _ _ hc hd hhost]
  intro c hc
  cases p with
  | nil =>
    rw [ht c hc]
    rfl
  | cons e p => exact hp c hc

private theorem decides_file_two (hname : ∀ c ∈ name, c.isAlphanum = true) (hc : isSlash true c = true)
    (hd : isSlash true d = true) (rest : List Char) (n : Nat) :
    Decides name n (EndsClear "file".toList (c :: d :: rest))
      (parseHierarchy hostParser "file".toList (c :: d :: rest ++ '/' :: name))
      (parseHierarchy hostParser "file".toList (c :: d :: rest ++ List.replicate n '/')) := by
  have hspecial : isSpecial "file".toList = true := by decide
  obtain ⟨host, p, rfl, hhost, hp⟩ := exists_cut (isSlash true) rest
  have hread := parseFile_two_append hostParser hc hd hhost hp
  have hpath := text_parsePath_name hname "file".toList
  by_cases hempty : host ++ p = []
  · -- two slashes: an empty host
    obtain ⟨rfl, rfl⟩ := List.append_eq_nil_iff.1 hempty
    have hpage := hread ('/' :: name) (by simp)
    rw [if_neg (by decide), if_pos rfl] at hpage
    have hkey : parseHierarchy hostParser "file".toList (c :: d :: ([] ++ []) ++ List.replicate n '/') =
        localFile "file".toList (List.replicate (n - 1) '/') :=
      (parseHierarchy_file _ _).trans (parseFile_slashes _ _ hc hd n)
    rw [localFile_slashes] at hkey
    refine decides_of_map (m := n - 1 + 1) hpage hkey hpath (text_replicate _) (by omega) (by simp [trailing])
      fun h => absurd (.inr ?_) h
    exact ⟨.inl rfl, c, d, rfl, by rw [hspecial, hc], by rw [hspecial, hd]⟩
  have hclear : EndsClear "file".toList (c :: d :: (host ++ p)) ↔
      endsIn (isSlash (isSpecial "file".toList)) (c :: d :: (host ++ p)) = false := by
    refine endsClear_iff fun _ _ htext _ _ => absurd ?_ hempty
    exact (List.cons.inj (List.cons.inj htext).2).2
  by_cases hdrive : isDriveLetter host = true
  · have hin : InPath hostParser "file".toList (c :: d :: (host ++ p)) (some { noAuthority with host := some [] })
        (host ++ p) := by
      refine ⟨fun t ht => ?_, ⟨[c, d], rfl⟩, fun h => absurd h hempty⟩
      rw [hread t ht, if_pos hdrive, List.append_assoc]
      rfl
    exact decides_of_inPath hname hin hclear n
  simp only [hdrive, Bool.false_eq_true, ↓reduceIte] at hread
  cases p with
  | cons e q =>
    have hin : ∃ o, InPath hostParser "file".toList (c :: d :: (host ++ e :: q)) o q := by
      have hslash : q = [] → endsIn (isSlash (isSpecial "file".toList)) (c :: d :: (host ++ e :: q)) = true := by
        rintro rfl
        rw [hspecial]
        exact (endsIn_append (s := c :: d :: host) (by simp)).trans (hp e rfl)
      have hsuffix : q <:+ c :: d :: (host ++ e :: q) := ⟨c :: d :: (host ++ [e]), by simp⟩
      by_cases hnil : host = []
      · exact ⟨some { noAuthority with host := some [] }, fun t ht => by rw [hread t ht, if_pos hnil]; rfl, hsuffix,
          hslash⟩
      · exact ⟨_, fun t ht => by rw [hread t ht, if_neg hnil]; rfl, hsuffix, hslash⟩
    obtain ⟨o, hin⟩ := hin
    exact decides_of_inPath hname hin hclear n
  | nil =>
    have hnil : host ≠ [] := by simpa using hempty
    simp only [hnil, ↓reduceIte, List.nil_append] at hread
    have hat : AtAuthority hostParser "file".toList (c :: d :: (host ++ [])) ((hostParser true host).map fun h =>
        { noAuthority with host := some (if h = "localhost".toList then [] else h) }) := by
      refine ⟨fun t => hread ('/' :: t) (by simp), ⟨[[]], .inr rfl, ?_⟩, ?_⟩
      · have hstop := hread [] (by simp)
        rw [List.append_nil (c :: d :: (host ++ [])), List.drop_nil] at hstop
        exact hstop
      · rw [hspecial, List.append_nil]
        exact (endsIn_append (s := [c, d]) hnil).trans (endsIn_eq_false_of_forall hhost)
    exact decides_of_atAuthority hname hat (hclear.2 hat.noSlash) n

private theorem isSlash_name (hname : ∀ c ∈ name, c.isAlphanum = true) : ∀ c ∈ name, isSlash true c = false :=
  fun c hc => isSlash_plain (isPlainChar_of_isAlphanum (hname c hc))

/-- Without a text, the name is the only segment. -/
private theorem decides_file_nil (hname : ∀ c ∈ name, c.isAlphanum = true) (n : Nat) :
    Decides name n (EndsClear "file".toList []) (parseHierarchy hostParser "file".toList ('/' :: name))
      (parseHierarchy hostParser "file".toList (List.replicate n '/')) := by
  have hhead : ∀ c, name.head? = some c → isSlash true c = false :=
    fun c hc => isSlash_name hname c (List.mem_of_head? hc)
  have hpage : parseHierarchy hostParser "file".toList ('/' :: name) = localFile "file".toList name := by
    rw [parseHierarchy_file, parseFile_one rfl hhead]
  obtain ⟨m, hm, hkey⟩ : ∃ m ≤ max n 1, parseHierarchy hostParser "file".toList (List.replicate n '/') =
      (some { noAuthority with host := some [] }).map fun a => (a, .segments (List.replicate m [])) := by
    rcases n with _ | _ | n
    · exact ⟨1, by omega, by rw [parseHierarchy_file]; rfl⟩
    · exact ⟨1, by omega, by rw [parseHierarchy_file]; rfl⟩
    · exact ⟨n - 1 + 1, by omega, by
        rw [parseHierarchy_file, List.replicate_succ, List.replicate_succ, parseFile_slashes _ _ rfl rfl,
          localFile_slashes]⟩
  exact decides_of_map hpage hkey (text_parsePath_name hname _) (text_replicate m) hm (by simp [trailing])
    fun h => absurd (.inl rfl) h

/-- Behind one slash, the name becomes the host. -/
private theorem decides_file_one (hname : ∀ c ∈ name, c.isAlphanum = true) (hne : name ≠ [])
    (hc : isSlash true c = true) (n : Nat) : Decides name n (EndsClear "file".toList [c])
      (parseHierarchy hostParser "file".toList ([c] ++ '/' :: name))
      (parseHierarchy hostParser "file".toList ([c] ++ List.replicate n '/')) := by
  refine decides_of_lost ?_ ?_
  · intro p hp
    rw [parseHierarchy_file, List.cons_append, List.nil_append] at hp
    have htwo := parseFile_two hostParser "file".toList (p := []) hc
      (show isSlash true '/' = true from rfl) (isSlash_name hname) (by simp)
    rw [isDriveLetter_plain hname, if_neg (by decide), if_neg hne, List.append_nil, hp] at htwo
    obtain ⟨a, _, rfl⟩ := Option.map_eq_some_iff.1 htwo.symm
    intro hsuffix
    have hlen : name.length + 1 ≤ 1 := hsuffix.length_le
    have hpos := List.length_pos_iff.2 hne
    omega
  · rw [endsClear_iff fun c d htext _ _ => by cases htext]
    show ¬ isSlash true c = false
    rw [hc]
    decide

theorem decides_file (hname : ∀ c ∈ name, c.isAlphanum = true) (hne : name ≠ []) (text : List Char) (n : Nat) :
    Decides name n (EndsClear "file".toList text) (parseHierarchy hostParser "file".toList (text ++ '/' :: name))
      (parseHierarchy hostParser "file".toList (text ++ List.replicate n '/')) := by
  have hspecial : isSpecial "file".toList = true := by decide
  rcases text with _ | ⟨c, rest⟩
  · exact decides_file_nil hname n
  by_cases hc : isSlash true c = true
  · rcases rest with _ | ⟨d, rest⟩
    · exact decides_file_one hname hne hc n
    by_cases hd : isSlash true d = true
    · exact decides_file_two hname hc hd rest n
    · -- the path starts behind the slash
      have hin : InPath hostParser "file".toList (c :: d :: rest) (some { noAuthority with host := some [] })
          (d :: rest) := by
        refine ⟨fun t _ => ?_, List.suffix_cons _ _, fun h => by cases h⟩
        rw [parseHierarchy_file, List.cons_append, parseFile_one hc (by simpa using hd)]
        rfl
      refine decides_of_inPath hname hin (endsClear_iff fun c' d' htext _ hd' => ?_) n
      obtain ⟨_, htext⟩ := List.cons.inj htext
      obtain ⟨rfl, _⟩ := List.cons.inj htext
      rw [hspecial] at hd'
      exact absurd hd' hd
  · have hin : InPath hostParser "file".toList (c :: rest) (some { noAuthority with host := some [] }) (c :: rest) := by
      refine ⟨fun t _ => ?_, List.suffix_refl _, fun h => by cases h⟩
      rw [parseHierarchy_file, parseFile_of_head (by simpa using hc)]
      rfl
    refine decides_of_inPath hname hin (endsClear_iff fun c' d' htext hc' _ => ?_) n
    obtain ⟨rfl, _⟩ := List.cons.inj htext
    rw [hspecial] at hc'
    exact absurd hc' hc

end

/-! ### Other schemes -/

section

variable {hostParser : HostParser} {rest host p : List Char}

theorem parseOther_noSlash {scheme : List Char} (h : ∀ c, rest.head? = some c → c ≠ '/') :
    parseOther hostParser scheme rest = some (noAuthority, .opaquePath (percentEncode c0Set rest)) := by
  rcases rest with _ | ⟨c, rest⟩
  · rfl
  · have hc := h c rfl
    unfold parseOther
    split
    · rename_i heq
      exact absurd (List.cons.inj heq).1 hc
    · rename_i heq
      exact absurd (List.cons.inj heq).1 hc
    · rfl

theorem parseOther_one (hostParser : HostParser) (scheme : List Char) (h : ∀ c, rest.head? = some c → c ≠ '/') :
    parseOther hostParser scheme ('/' :: rest) = some (noAuthority, .segments (parsePath scheme rest)) := by
  rcases rest with _ | ⟨c, rest⟩
  · rfl
  · have hc := h c rfl
    unfold parseOther
    split
    · rename_i heq
      exact absurd (List.cons.inj (List.cons.inj heq).2).1 hc
    · rename_i heq
      cases heq
      rfl
    · rename_i _ hnot
      exact absurd rfl (hnot _)

theorem parseOther_two (hostParser : HostParser) (scheme : List Char) (hhost : '/' ∉ host)
    (hp : ∀ c, p.head? = some c → c = '/') :
    parseOther hostParser scheme ('/' :: '/' :: (host ++ p)) = (parseAuthority hostParser scheme host).map fun a =>
      (a, .segments (if p = [] then [] else parsePath scheme (p.drop 1))) := by
  have hnot : ∀ c ∈ host, decide (c ≠ '/') = true := fun c hc => decide_eq_true (by rintro rfl; exact hhost hc)
  have hcut := cut_of_head (p := fun c => decide (c ≠ '/')) (s := p) fun c hc => decide_eq_false (by simp [hp c hc])
  rw [parseOther]
  simp only [List.takeWhile_append_of_pos hnot, List.dropWhile_append_of_pos hnot, hcut, List.append_nil]
  cases p <;> rfl

end

section

variable {hostParser : HostParser} {scheme name : List Char}

/-- A text that is no path and no authority is kept as it is. -/
private theorem trailing_percentEncode (text : List Char) :
    trailing '/' (percentEncode c0Set text) ≠ 0 ↔ endsIn (· = '/') text = true := by
  rw [ne_eq, trailing_eq_zero, Bool.not_eq_false]
  rcases List.eq_nil_or_concat text with rfl | ⟨t, c, rfl⟩
  · exact Iff.rfl
  rw [List.concat_eq_append, percentEncode_append, endsIn_concat, endsIn_append (percentEncode_ne_nil c0Set (by simp))]
  by_cases hc : c = '/'
  · subst hc
    exact iff_of_true (by decide) (by decide)
  · have hnot : '/' ∉ percentEncode c0Set [c] := notMem_percentEncode (by decide) (by simpa using Ne.symm hc)
    rw [endsIn_eq_false_of_forall fun d hd => decide_eq_false (by rintro rfl; exact hnot hd)]
    simp [hc]

/-- Letters, digits and slashes are kept in an opaque path. -/
theorem percentEncode_kept {t : List Char} (h : ∀ c ∈ t, c.isAlphanum = true ∨ c = '/') :
    percentEncode c0Set t = t := by
  apply percentEncode_eq_self
  intro c hc
  rcases h c hc with halpha | rfl
  · exact forall_ascii (P := fun c => c.isAlphanum = true → c0Set c = false) (by decide +kernel)
      (ascii_of_isAlphanum halpha) halpha
  · decide

private theorem parseAuthority_nil (hspecial : isSpecial scheme = false) :
    parseAuthority hostParser scheme [] = (hostParser false []).map fun host =>
      { username := [], password := [], host := some host, port := none } := by
  simp only [parseAuthority, List.rdropWhile_nil, List.rtakeWhile_nil, splitHostPort, hspecial]
  cases hostParser false [] <;> rfl

section

variable (hspecial : isSpecial scheme = false)

include hspecial

theorem parseHierarchy_other (text : List Char) :
    parseHierarchy hostParser scheme text = parseOther hostParser scheme text := by
  have hfile : scheme ≠ "file".toList := by
    rintro rfl
    exact absurd hspecial (by decide)
  rw [parseHierarchy, if_neg hfile, hspecial]
  rfl

private theorem isSlash_other (c : Char) : isSlash (isSpecial scheme) c = decide (c = '/') := by
  simp [hspecial, isSlash]

/-- Two slashes and more are an empty host and empty segments. -/
private theorem parseHierarchy_other_slashes (n : Nat) :
    parseHierarchy hostParser scheme ('/' :: '/' :: List.replicate n '/') =
      (parseAuthority hostParser scheme []).map fun a => (a, .segments (List.replicate n [])) := by
  have htwo := parseOther_two hostParser scheme (p := List.replicate n '/') (show '/' ∉ [] by simp)
    fun _ => eq_slash_of_head?
  rw [parseHierarchy_other hspecial, ← List.nil_append (List.replicate n '/'), htwo]
  cases n with
  | zero => rfl
  | succ n => rw [if_neg (by simp), List.drop_replicate, Nat.add_sub_cancel, parsePath_slashes]

section

variable (hname : ∀ c ∈ name, c.isAlphanum = true)

include hname

/-- Without a text, the name is the only segment. -/
private theorem decides_other_nil (hempty : ∀ host, hostParser false [] = some host → host = []) (n : Nat) :
    Decides name n (EndsClear scheme []) (parseHierarchy hostParser scheme ('/' :: name))
      (parseHierarchy hostParser scheme (List.replicate n '/')) := by
  have hhead : ∀ c, name.head? = some c → c ≠ '/' := by
    rintro c hc rfl
    exact absurd (hname _ (List.mem_of_head? hc)) (by decide)
  have hpage : parseHierarchy hostParser scheme ('/' :: name) =
      some (noAuthority, .segments (parsePath scheme name)) := by
    rw [parseHierarchy_other hspecial, parseOther_one _ _ hhead]
  refine decides_of_read (P := []) ?_ ?_ fun h => absurd (.inl rfl) h
  · rintro p hp
    cases hpage.symm.trans hp
    exact text_parsePath_name hname scheme
  · rintro p k hp hk
    cases hpage.symm.trans hp
    rcases n with _ | _ | n
    · rw [List.replicate_zero, parseHierarchy_other hspecial] at hk
      cases hk
      exact ⟨⟨rfl, rfl⟩, 0, by omega, rfl, by simp [trailing]⟩
    · rw [parseHierarchy_other hspecial] at hk
      cases hk
      exact ⟨⟨rfl, rfl⟩, 1, by omega, by rw [parsePath_slashes]; rfl, by simp [trailing]⟩
    · rw [List.replicate_succ, List.replicate_succ, parseHierarchy_other_slashes hspecial, parseAuthority_nil hspecial,
        Option.map_map] at hk
      obtain ⟨host, hhost, rfl⟩ := Option.map_eq_some_iff.1 hk
      rw [hempty host hhost]
      exact ⟨⟨rfl, rfl⟩, n, by omega, text_replicate n, by simp [trailing]⟩

/-- Behind one slash, the name becomes the host. -/
private theorem decides_other_one (n : Nat) : Decides name n (EndsClear scheme ['/'])
    (parseHierarchy hostParser scheme (['/'] ++ '/' :: name))
    (parseHierarchy hostParser scheme (['/'] ++ List.replicate n '/')) := by
  have hslash : '/' ∉ name := fun hmem => absurd (hname _ hmem) (by decide)
  have htwo := parseOther_two hostParser scheme (p := []) hslash (by simp)
  refine decides_of_lost ?_ ?_
  · intro p hp
    rw [List.append_nil, if_pos rfl, ← parseHierarchy_other hspecial] at htwo
    obtain ⟨a, _, rfl⟩ := Option.map_eq_some_iff.1 (htwo.symm.trans hp)
    intro hsuffix
    cases List.suffix_nil.1 hsuffix
  · rw [endsClear_iff fun c d htext _ _ => by cases htext]
    simp [endsIn, isSlash_other hspecial]

private theorem decides_other_two (rest : List Char) (n : Nat) : Decides name n (EndsClear scheme ('/' :: '/' :: rest))
    (parseHierarchy hostParser scheme ('/' :: '/' :: rest ++ '/' :: name))
    (parseHierarchy hostParser scheme ('/' :: '/' :: rest ++ List.replicate n '/')) := by
  obtain ⟨host, p, rfl, hhost, hp⟩ := exists_cut (fun c => decide (c = '/')) rest
  have hhostSlash : '/' ∉ host := fun hmem => by simpa using hhost _ hmem
  have hread : ∀ t : List Char, (∀ c, t.head? = some c → c = '/') →
      parseHierarchy hostParser scheme ('/' :: '/' :: (host ++ p) ++ t) =
        (parseAuthority hostParser scheme host).map fun a =>
          (a, .segments (if p ++ t = [] then [] else parsePath scheme ((p ++ t).drop 1))) := by
    intro t ht
    rw [parseHierarchy_other hspecial, List.cons_append, List.cons_append, List.append_assoc,
      parseOther_two _ _ hhostSlash]
    intro c hc
    cases p with
    | nil => exact ht c hc
    | cons e p => exact of_decide_eq_true (hp c hc)
  by_cases hnil : host ++ p = []
  · -- two slashes: an empty host
    obtain ⟨rfl, rfl⟩ := List.append_eq_nil_iff.1 hnil
    refine decides_of_map (m := n) (hread ('/' :: name) (by simp)) (parseHierarchy_other_slashes hspecial n)
      (text_parsePath_name hname scheme) (text_replicate n) (by omega) (by simp [trailing])
      fun h => absurd (.inr ⟨.inr hspecial, '/', '/', rfl, ?_⟩) h
    rw [isSlash_other hspecial]
    exact ⟨rfl, rfl⟩
  have hclear : EndsClear scheme ('/' :: '/' :: (host ++ p)) ↔
      endsIn (isSlash (isSpecial scheme)) ('/' :: '/' :: (host ++ p)) = false := by
    refine endsClear_iff fun _ _ htext _ _ => absurd ?_ hnil
    exact (List.cons.inj (List.cons.inj htext).2).2
  cases p with
  | nil =>
    have hhostne : host ≠ [] := by simpa using hnil
    have hat : AtAuthority hostParser scheme ('/' :: '/' :: (host ++ [])) (parseAuthority hostParser scheme host) := by
      refine ⟨fun t => hread ('/' :: t) (by simp), ⟨[], .inl rfl, ?_⟩, ?_⟩
      · have hstop := hread [] (by simp)
        rw [List.append_nil ('/' :: '/' :: (host ++ [])), if_pos (List.append_nil [])] at hstop
        exact hstop
      · rw [List.append_nil]
        refine (endsIn_append (s := ['/', '/']) hhostne).trans (endsIn_eq_false_of_forall fun c hc => ?_)
        rw [isSlash_other hspecial]
        exact hhost c hc
    exact decides_of_atAuthority hname hat (hclear.2 hat.noSlash) n
  | cons e q =>
    have hin : InPath hostParser scheme ('/' :: '/' :: (host ++ e :: q)) (parseAuthority hostParser scheme host) q := by
      refine ⟨fun t ht => ?_, ⟨'/' :: '/' :: (host ++ [e]), by simp⟩, ?_⟩
      · rw [hread t ht, if_neg (by simp)]
        rfl
      · rintro rfl
        refine (endsIn_append (s := '/' :: '/' :: host) (by simp)).trans ?_
        exact (isSlash_other hspecial e).trans (hp e rfl)
    exact decides_of_inPath hname hin hclear n

/-- An opaque path is kept, and what is put behind it too. -/
private theorem decides_other_noSlash {c : Char} (hc : c ≠ '/') (rest : List Char) (n : Nat) :
    Decides name n (EndsClear scheme (c :: rest)) (parseHierarchy hostParser scheme (c :: rest ++ '/' :: name))
      (parseHierarchy hostParser scheme (c :: rest ++ List.replicate n '/')) := by
  have hkept : ∀ t : List Char, (∀ c ∈ t, c.isAlphanum = true ∨ c = '/') →
      parseHierarchy hostParser scheme (c :: rest ++ t) =
        (some noAuthority).map fun a => (a, .opaquePath (percentEncode c0Set (c :: rest) ++ t)) := by
    intro t ht
    rw [parseHierarchy_other hspecial, parseOther_noSlash (by simpa using hc), percentEncode_append,
      percentEncode_kept ht]
    rfl
  have hclear : EndsClear scheme (c :: rest) ↔ endsIn (isSlash (isSpecial scheme)) (c :: rest) = false := by
    refine endsClear_iff fun c' d' htext hc' _ => ?_
    obtain ⟨rfl, _⟩ := List.cons.inj htext
    rw [isSlash_other hspecial] at hc'
    exact absurd (of_decide_eq_true hc') hc
  have hend : endsIn (isSlash (isSpecial scheme)) (c :: rest) = endsIn (· = '/') (c :: rest) :=
    congrArg (fun p => endsIn p (c :: rest)) (funext (isSlash_other hspecial))
  refine decides_of_map (m := n) (P := percentEncode c0Set (c :: rest)) (hkept ('/' :: name) ?_)
    (hkept (List.replicate n '/') ?_) rfl rfl (by omega) ?_ ?_
  · intro d hd
    exact (List.mem_cons.1 hd).elim .inr fun hmem => .inl (hname d hmem)
  · exact fun d hd => .inr (List.eq_of_mem_replicate hd)
  · intro hne hyes
    rw [trailing_percentEncode, ← hend, hclear.1 hyes] at hne
    cases hne
  · rw [hclear, trailing_percentEncode, hend]
    exact fun h => by simpa using h

theorem decides_other (hempty : ∀ host, hostParser false [] = some host → host = []) (text : List Char) (n : Nat) :
    Decides name n (EndsClear scheme text) (parseHierarchy hostParser scheme (text ++ '/' :: name))
      (parseHierarchy hostParser scheme (text ++ List.replicate n '/')) := by
  rcases text with _ | ⟨c, rest⟩
  · exact decides_other_nil hspecial hname hempty n
  by_cases hc : c = '/'
  · subst hc
    rcases rest with _ | ⟨d, rest⟩
    · exact decides_other_one hspecial hname n
    by_cases hd : d = '/'
    · subst hd
      exact decides_other_two hspecial hname rest n
    · -- no authority
      have hin : InPath hostParser scheme ('/' :: d :: rest) (some noAuthority) (d :: rest) := by
        refine ⟨fun t _ => ?_, List.suffix_cons _ _, fun h => by cases h⟩
        rw [parseHierarchy_other hspecial, List.cons_append, parseOther_one _ _ (by simpa using hd)]
        rfl
      refine decides_of_inPath hname hin (endsClear_iff fun c' d' htext _ hd' => ?_) n
      obtain ⟨_, htext⟩ := List.cons.inj htext
      obtain ⟨rfl, _⟩ := List.cons.inj htext
      rw [isSlash_other hspecial] at hd'
      exact absurd (of_decide_eq_true hd') hd
  · exact decides_other_noSlash hspecial hname hc rest n

end

end

end

/-! ### Any scheme -/

/-- Whether the page is below the URL is decided by the end of the text and by the end of the path. -/
theorem decides_parseHierarchy {hostParser : HostParser} (hempty : ∀ host, hostParser false [] = some host → host = [])
    {name : List Char} (hname : ∀ c ∈ name, c.isAlphanum = true) (hne : name ≠ []) (scheme text : List Char) (n : Nat) :
    Decides name n (EndsClear scheme text) (parseHierarchy hostParser scheme (text ++ '/' :: name))
      (parseHierarchy hostParser scheme (text ++ List.replicate n '/')) := by
  by_cases hfile : scheme = "file".toList
  · subst hfile
    exact decides_file hname hne text n
  · cases hspecial : isSpecial scheme with
    | true => exact decides_special hspecial hfile hname text n
    | false => exact decides_other hspecial hname hempty text n

end Whatwg
