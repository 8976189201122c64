import ControllerUniffi.Data.Collect
import ControllerUniffi.Registration
import ControllerUniffi.Url.Append

/-!
# The base URL of the API

A base URL of the API can be given with `/query` behind it and with slashes at the end.  The endpoint of the
shortener is the base with `/s` behind it exactly for the spellings in which no slash stands behind `/query`
(`shortenerEndpoint_spelling_iff`); the trims see only text, so the host `query` and a host with a space at its end
are lost as well.
-/

namespace ControllerUniffi

open Text Whatwg Collect

/-- The text in front of the endpoint's `/s`. -/
def trimApiUrl (s : List Char) : List Char := trimEnd '/' (trimEndMatches "/query".toList s)

theorem shortenerEndpoint_eq_ok_iff {T : Crates} {s e : String} : shortenerEndpoint T s = .ok e ↔
    e = String.ofList (trimApiUrl s.toList) ++ "/s" ∧ ∃ url, T.urlParse e = .ok url := by
  unfold shortenerEndpoint
  constructor
  · intro h
    obtain ⟨url, hurl, h⟩ := bind_eq_ok_iff.1 h
    cases h
    exact ⟨rfl, url, mapError_eq_ok_iff.1 hurl⟩
  · rintro ⟨rfl, url, hurl⟩
    exact bind_eq_ok_iff.2 ⟨url, mapError_eq_ok_iff.2 hurl, rfl⟩

/-- An http or https URL of an authority and a path, neither in `/` nor in `/query`. -/
structure ApiBase where
  scheme : List Char
  authority : List Char
  path : List Char
  http : lower scheme ∈ ["http".toList, "https".toList]
  authority_chars : ∀ c ∈ authority, c ∉ ['/', '\\', '?', '#']
  authority_nonempty : authority.filter (! isTabOrNewline ·) ≠ []
  path_start : ∀ c, path.head? = some c → isSlash true c = true
  path_clean : Clean path
  path_end : endsIn (· = '/') path = false ∧ ¬ "/query".toList <:+ path

namespace ApiBase

variable (B : ApiBase)

def text : List Char := B.scheme ++ "://".toList ++ B.authority ++ B.path

/-- The base with `/query` behind it or not, and with `n` slashes at the end. -/
def spelling (query : Bool) (n : Nat) : List Char :=
  B.text ++ (if query then "/query".toList else []) ++ List.replicate n '/'

theorem spelling_cases (query : Bool) (n : Nat) : B.spelling query n = B.text ∨
    ∃ t, B.spelling query n = B.text ++ '/' :: t ∧ ∀ c ∈ '/' :: t, isC0OrSpace c = false ∧ c ≠ '?' ∧ c ≠ '#' := by
  have hslashes : ∀ c ∈ List.replicate n '/', isC0OrSpace c = false ∧ c ≠ '?' ∧ c ≠ '#' := by
    intro c hc
    rw [List.eq_of_mem_replicate hc]
    decide
  cases query with
  | true =>
    refine .inr ⟨"query".toList ++ List.replicate n '/', by simp [spelling], ?_⟩
    rw [← List.cons_append]
    intro c hc
    rcases List.mem_append.1 hc with hc | hc
    · exact forall_mem_of_all (P := fun c => isC0OrSpace c = false ∧ c ≠ '?' ∧ c ≠ '#') (by decide) c hc
    · exact hslashes c hc
  | false =>
    cases n with
    | zero => exact .inl (by simp [spelling])
    | succ n => exact .inr ⟨List.replicate n '/', by simp [spelling, List.replicate_succ], hslashes⟩

def endpoint : String := String.ofList B.text ++ "/s"

/-! ### Trimming -/

theorem authority_ne_nil : B.authority ≠ [] := by
  intro h
  have hne := B.authority_nonempty
  rw [h] at hne
  exact hne rfl

theorem endsIn_text : endsIn (· = '/') B.text = false := by
  by_cases hpath : B.path = []
  · rw [text, hpath, List.append_nil, endsIn_append B.authority_ne_nil]
    apply endsIn_eq_false_of_forall
    intro c hc
    have hnot := B.authority_chars c hc
    simp only [List.mem_cons, not_or] at hnot
    exact decide_eq_false hnot.1
  · rw [text, endsIn_append hpath, B.path_end.1]

/-- The text of a base ends in `/query` only when this is the end of its `//` and the host `query`. -/
theorem query_suffix_iff : "/query".toList <:+ B.text ↔ B.path = [] ∧ B.authority = "query".toList := by
  constructor
  · intro h
    by_cases hpath : B.path = []
    · refine ⟨hpath, ?_⟩
      have hauthority : '/' :: B.authority <:+ B.text := ⟨B.scheme ++ ":/".toList, by simp [text, hpath]⟩
      have hslash : '/' ∉ B.authority := fun hmem => B.authority_chars _ hmem (by simp)
      rcases List.suffix_or_suffix_of_suffix h hauthority with hs | hs
      · rcases List.suffix_cons_iff.1 hs with heq | hs
        · exact (List.cons.inj heq).2.symm
        · exact absurd (hs.subset List.mem_cons_self) hslash
      · rcases List.suffix_cons_iff.1 hs with heq | hs
        · exact (List.cons.inj heq).2
        · exact absurd (hs.subset List.mem_cons_self) (by decide)
    · -- the path would be the end of `/query`, and it starts with a slash
      have hpathText : B.path <:+ B.text := List.suffix_append _ _
      rcases List.suffix_or_suffix_of_suffix h hpathText with hs | hs
      · exact absurd hs B.path_end.2
      · rcases List.suffix_cons_iff.1 hs with heq | hs
        · exact absurd (heq ▸ List.suffix_refl _) B.path_end.2
        · obtain ⟨c, q, hc⟩ := List.exists_cons_of_ne_nil hpath
          have hquery : ∀ d ∈ "query".toList, isSlash true d = false := forall_mem_of_all (by decide)
          have hslash := B.path_start c (by rw [hc]; rfl)
          rw [hquery c (hs.subset (hc ▸ List.mem_cons_self))] at hslash
          cases hslash
  · rintro ⟨hpath, hauthority⟩
    exact ⟨B.scheme ++ ":/".toList, by simp [text, hpath, hauthority]⟩

/-- Without slashes, `/query` is trimmed, and the host `query` as well. -/
theorem trimApiUrl_query (query : Bool) : trimApiUrl (B.spelling query 0) =
    if B.path = [] ∧ B.authority = "query".toList then B.scheme ++ ":".toList else B.text := by
  have htrim : trimEndMatches "/query".toList (B.spelling query 0) = trimEndMatches "/query".toList B.text := by
    rw [spelling, List.replicate_zero, List.append_nil]
    cases query with
    | false => exact congrArg _ (List.append_nil B.text)
    | true => exact trimEndMatches_append (by decide)
  rw [trimApiUrl, htrim]
  by_cases hquery : B.path = [] ∧ B.authority = "query".toList
  · have htext : B.text = B.scheme ++ ":/".toList ++ "/query".toList := by simp [text, hquery]
    have hnot : ¬ "/query".toList <:+ B.scheme ++ ":/".toList := by
      intro hs
      have hlast := List.suffix_or_suffix_of_suffix hs (List.suffix_append B.scheme ":/".toList)
      exact absurd hlast (by decide)
    have hcolon : B.scheme ++ ":/".toList = B.scheme ++ ":".toList ++ List.replicate 1 '/' := by simp
    rw [if_pos hquery, htext, trimEndMatches_append (by decide), trimEndMatches_of_not_suffix hnot, hcolon,
      trimEnd_append_of_endsIn (by rw [endsIn_append (by decide)]; decide)]
  · rw [if_neg hquery, trimEndMatches_of_not_suffix fun h => hquery (B.query_suffix_iff.1 h),
      trimEnd_of_endsIn B.endsIn_text]

/-- Slashes at the end hide `/query`. -/
theorem trimApiUrl_slashes (query : Bool) {n : Nat} (hn : n ≠ 0) :
    trimApiUrl (B.spelling query n) = B.text ++ if query then "/query".toList else [] := by
  have hne : List.replicate n '/' ≠ [] := by simpa using hn
  have hend : endsIn (· = '/') (B.spelling query n) = true := by
    rw [spelling, endsIn_append hne]
    exact endsIn_of_forall hne fun c hc => decide_eq_true (List.eq_of_mem_replicate hc)
  have hnot : ¬ "/query".toList <:+ B.spelling query n := by
    rintro ⟨x, hx⟩
    rw [← hx, endsIn_append (by decide)] at hend
    exact absurd hend (by decide)
  rw [trimApiUrl, trimEndMatches_of_not_suffix hnot, spelling]
  apply trimEnd_append_of_endsIn
  cases query with
  | false => rw [if_neg (by decide), List.append_nil, B.endsIn_text]
  | true =>
    rw [if_pos rfl, endsIn_append (by decide)]
    decide

theorem trimApiUrl_eq_iff (query : Bool) (n : Nat) : trimApiUrl (B.spelling query n) = B.text ↔
    (query = true → n = 0) ∧ (n = 0 → ¬ (B.path = [] ∧ B.authority = "query".toList)) := by
  by_cases hn : n = 0
  · subst hn
    rw [trimApiUrl_query]
    by_cases hquery : B.path = [] ∧ B.authority = "query".toList
    · rw [if_pos hquery]
      refine iff_of_false (fun heq => ?_) fun h => h.2 rfl hquery
      have hlen := congrArg List.length heq
      simp [text, hquery] at hlen
    · rw [if_neg hquery]
      exact iff_of_true rfl ⟨fun _ => rfl, fun _ => hquery⟩
  · rw [trimApiUrl_slashes _ _ hn]
    cases query <;> simp [hn]

/-! ### Parsing -/

/-- The authority and the path as they are parsed, without tabs and newlines. -/
def host : List Char := B.authority.filter (! isTabOrNewline ·)

def location : List Char := B.path.filter (! isTabOrNewline ·)

theorem isAlpha_scheme : ∀ c ∈ B.scheme, c.isAlpha = true := by
  have hhttp : lower B.scheme = "http".toList ∨ lower B.scheme = "https".toList := by simpa using B.http
  apply isAlpha_of_lower
  rcases hhttp with h | h
  · rw [h]
    exact forall_mem_of_all (by decide)
  · rw [h]
    exact forall_mem_of_all (by decide)

theorem scheme_ne_nil : B.scheme ≠ [] := by
  intro h
  have := B.http
  rw [h] at this
  exact absurd this (by decide)

theorem special_scheme : isSpecial (lower B.scheme) = true ∧ lower B.scheme ≠ "file".toList := by
  have hspecial : ∀ s ∈ ["http".toList, "https".toList], isSpecial s = true ∧ s ≠ "file".toList := by decide
  exact hspecial _ B.http

theorem isSlash_host : ∀ c ∈ B.host, isSlash true c = false := by
  intro c hc
  have hnot := B.authority_chars c (List.mem_of_mem_filter hc)
  simp only [List.mem_cons, not_or] at hnot
  simp [isSlash, hnot]

theorem clean_text : Clean (B.host ++ B.location) := by
  refine Clean.append (fun c hc => ?_) (B.path_clean.of_subset fun c hc => List.mem_of_mem_filter hc)
  have hnot := B.authority_chars c (List.mem_of_mem_filter hc)
  simp only [List.mem_cons, not_or] at hnot
  exact ⟨hnot.2.2.1, hnot.2.2.2.1⟩

theorem location_cases : B.path = [] ∧ B.location = [] ∨
    ∃ c q, B.location = c :: q ∧ isSlash true c = true ∧ isC0OrSpace c = false := by
  cases hpath : B.path with
  | nil => exact .inl ⟨rfl, by rw [location, hpath]; rfl⟩
  | cons c q =>
    have hc := B.path_start c (by rw [hpath]; rfl)
    have hspace : isC0OrSpace c = false ∧ isTabOrNewline c = false := by
      simp only [isSlash, Bool.or_eq_true, decide_eq_true_eq, Bool.and_eq_true, true_and] at hc
      rcases hc with rfl | rfl <;> decide
    refine .inr ⟨c, q.filter (! isTabOrNewline ·), ?_, hc, hspace.1⟩
    rw [location, hpath, List.filter_cons, hspace.2]
    rfl

theorem strip_text : strip B.text = B.scheme ++ ':' :: ("//".toList ++ B.host ++ B.location) := by
  have hplain : ∀ c ∈ B.scheme, isC0OrSpace c = false := fun c hc =>
    (isPlainChar_ne (isPlainChar_of_isAlphanum (by simp [Char.isAlphanum, B.isAlpha_scheme c hc]))).1
  have hdrop : B.text.dropWhile isC0OrSpace = B.text := by
    obtain ⟨c, s, hs⟩ := List.exists_cons_of_ne_nil B.scheme_ne_nil
    rw [text, hs]
    exact List.dropWhile_cons_of_neg (by rw [hplain c (hs ▸ List.mem_cons_self)]; decide)
  have hscheme : B.scheme.filter (! isTabOrNewline ·) = B.scheme := by
    rw [List.filter_eq_self]
    intro c hc
    cases h : isTabOrNewline c with
    | false => rfl
    | true =>
      have hspace := isC0OrSpace_of_isTabOrNewline h
      rw [hplain c hc] at hspace
      cases hspace
  rw [strip, hdrop, text, List.filter_append, List.filter_append, List.filter_append, hscheme, host, location]
  simp only [List.append_assoc]
  rfl

section

variable (hostParser : HostParser) {p : List Char}

/-- The authority of the base is read whatever stands behind it. -/
theorem parse_of_preprocess {s : List Char} (hclean : Clean p) (hp : ∀ c, p.head? = some c → isSlash true c = true)
    (h : preprocess s = B.scheme ++ ':' :: ("//".toList ++ B.host ++ p)) :
    parse hostParser s = (parseAuthority hostParser (lower B.scheme) B.host).map fun a =>
      { scheme := lower B.scheme, authority := a, path := .segments (parsePath (lower B.scheme) (p.drop 1))
        query := none, fragment := none } := by
  have hrest : Clean ("//".toList ++ B.host ++ p) :=
    Clean.append (Clean.append (by simp [Clean]) (B.clean_text.of_subset fun c hc => List.mem_append_left _ hc)) hclean
  have hne : B.host ≠ [] := B.authority_nonempty
  have hslashes : ∀ c ∈ "//".toList, isSlash true c = true := forall_mem_of_all (by decide)
  have hhierarchy := parseHierarchy_special hostParser B.special_scheme.1 B.special_scheme.2 hslashes hne
    B.isSlash_host hp
  rw [parse, h, splitScheme_plain B.scheme_ne_nil B.isAlpha_scheme]
  simp only [takeWhile_of_clean hrest]
  rw [hhierarchy, (clean_iff.2 hrest).1, (clean_iff.2 hrest).2, Option.map_map]
  rfl

/-- A text that starts with a slash, put behind the base, changes only the path. -/
theorem parse_append {t : List Char} (ht : ∀ c ∈ '/' :: t, isC0OrSpace c = false ∧ c ≠ '?' ∧ c ≠ '#') :
    ∃ path, parse hostParser (B.text ++ '/' :: t) =
      (parseAuthority hostParser (lower B.scheme) B.host).map fun a =>
        { scheme := lower B.scheme, authority := a, path := path, query := none, fragment := none } := by
  have hpre : preprocess (B.text ++ '/' :: t) =
      B.scheme ++ ':' :: ("//".toList ++ B.host ++ (B.location ++ '/' :: t)) := by
    rw [preprocess_append (by simp) fun c hc => (ht c hc).1, B.strip_text]
    simp only [List.append_assoc, List.cons_append]
  have hhead : ∀ c, (B.location ++ '/' :: t).head? = some c → isSlash true c = true := by
    intro c hc
    rcases B.location_cases with ⟨_, hnil⟩ | ⟨d, q, hcons, hd, _⟩
    · rw [hnil] at hc
      cases hc
      rfl
    · rw [hcons] at hc
      cases hc
      exact hd
  have hclean : Clean (B.location ++ '/' :: t) :=
    Clean.append (B.clean_text.of_subset fun c hc => List.mem_append_right _ hc) fun c hc => (ht c hc).2
  exact ⟨_, B.parse_of_preprocess _ hclean hhead hpre⟩

end

section

variable {T : Crates} (hurl : T.UrlStandard)

/-- A special URL has no host with a space at its end. -/
theorem parseAuthority_space (hhosts : T.hostParser.Standard) (h : endsIn isC0OrSpace B.host = true) :
    parseAuthority T.hostParser (lower B.scheme) B.host = none := by
  obtain ⟨text, c, htext, hc⟩ := exists_of_endsIn h
  rw [htext]
  cases ha : parseAuthority T.hostParser (lower B.scheme) (text ++ [c]) with
  | none => rfl
  | some a =>
    have hpart := hostPart_append (by simp) (by simpa using hc) ha
    obtain ⟨host, hhost, _⟩ := host_of_parseAuthority ha
    rw [hpart, B.special_scheme.1, hhosts.refuses true _ (.inl rfl) ⟨c, by simp, hc⟩] at hhost
    cases hhost

include hurl

theorem authority_of_urlParse {base : Url} (h : T.urlParse (String.ofList B.text) = .ok base)
    (hspace : B.path = [] → endsIn isC0OrSpace B.host = false) :
    base.scheme = lower B.scheme ∧ parseAuthority T.hostParser (lower B.scheme) B.host = some base.authority := by
  have hparse := hurl.parse_of_ok h
  rw [String.toList_ofList] at hparse
  -- what of the path is left when spaces at the end are dropped
  obtain ⟨p, hpre, hclean, hhead⟩ : ∃ p, preprocess B.text = B.scheme ++ ':' :: ("//".toList ++ B.host ++ p) ∧ Clean p ∧
      ∀ c, p.head? = some c → isSlash true c = true := by
    rcases B.location_cases with ⟨hpath, hnil⟩ | ⟨c, q, hcons, hc, hne⟩
    · refine ⟨[], ?_, clean_nil, by simp⟩
      rw [← hnil, ← B.strip_text]
      apply preprocess_eq_strip
      have htext : B.scheme ++ ':' :: ("//".toList ++ B.host ++ []) = B.scheme ++ "://".toList ++ B.host := by simp
      have hhost : B.host ≠ [] := B.authority_nonempty
      rw [B.strip_text, hnil, htext, endsIn_append hhost, hspace hpath]
    · have hstrip : strip B.text = (B.scheme ++ "://".toList ++ B.host) ++ c :: q := by
        rw [B.strip_text, hcons]
        simp
      obtain ⟨q', spaces, hpre, hq, _⟩ := preprocess_of_strip hstrip hne
      refine ⟨c :: q', by rw [hpre]; simp, ?_, by simpa using hc⟩
      refine B.clean_text.of_subset fun d hd => List.mem_append_right _ ?_
      rw [hcons, hq, ← List.cons_append]
      exact List.mem_append_left _ hd
  rw [B.parse_of_preprocess _ hclean hhead hpre] at hparse
  obtain ⟨a, ha, rfl⟩ := Option.map_eq_some_iff.1 hparse
  exact ⟨rfl, ha⟩

end

end ApiBase

/-! ### The endpoint -/

/-- The endpoint of a spelling is the base with `/s` behind it, and has the scheme, the host and the port of the URL
that was given. -/
def Normalized (T : Crates) (B : ApiBase) (query : Bool) (n : Nat) : Prop :=
  shortenerEndpoint T (String.ofList (B.spelling query n)) = .ok B.endpoint ∧
    ∃ given endpoint, T.urlParse (String.ofList (B.spelling query n)) = .ok given ∧
      T.urlParse B.endpoint = .ok endpoint ∧ endpoint.SameOrigin given

section

variable (T : Crates)

/-- A spelling of a base that parses is normalized iff there are no slashes behind a `/query`, the trims do not take
the host `query` for one, and no space or control stands where the endpoint's `/s` makes it part of the host. -/
theorem shortenerEndpoint_spelling_iff (hurl : T.UrlStandard) (hhosts : T.hostParser.Standard) (B : ApiBase) {base : Url}
    (hbase : T.urlParse (String.ofList B.text) = .ok base) (query : Bool) (n : Nat) :
    Normalized T B query n ↔
      (query = true → n = 0) ∧ (n = 0 → ¬ (B.path = [] ∧ B.authority = "query".toList)) ∧
        (B.path = [] → endsIn isC0OrSpace (B.authority.filter (! isTabOrNewline ·)) = false) := by
  have hendpoint : B.endpoint.toList = B.text ++ '/' :: "s".toList := by simp [ApiBase.endpoint]
  rw [← and_assoc, ← B.trimApiUrl_eq_iff]
  constructor
  · rintro ⟨hok, given, endpoint, _, hparse, _⟩
    obtain ⟨htext, _⟩ := shortenerEndpoint_eq_ok_iff.1 hok
    refine ⟨?_, fun _ => ?_⟩
    · rw [ApiBase.endpoint] at htext
      simpa using congrArg String.toList htext.symm
    -- a space at the end of the host stands in front of the endpoint's `/s`
    · cases hspace : endsIn isC0OrSpace B.host with
      | false => exact hspace
      | true =>
        obtain ⟨path, hpath⟩ := B.parse_append T.hostParser (t := "s".toList)
          (forall_mem_of_all (by decide))
        rw [← hendpoint, hurl.parse_of_ok hparse, B.parseAuthority_space hhosts hspace] at hpath
        cases hpath
  · rintro ⟨htrim, hspace⟩
    obtain ⟨hscheme, hauthority⟩ := B.authority_of_urlParse hurl hbase hspace
    -- whatever is put behind the base, the authority stays
    have happend : ∀ t, (∀ c ∈ '/' :: t, isC0OrSpace c = false ∧ c ≠ '?' ∧ c ≠ '#') → ∃ url,
        (∀ s, s.toList = B.text ++ '/' :: t → T.urlParse s = .ok url) ∧ url.scheme = lower B.scheme ∧
          url.authority = base.authority := by
      intro t ht
      obtain ⟨path, hpath⟩ := B.parse_append T.hostParser ht
      rw [hauthority] at hpath
      exact ⟨{ scheme := lower B.scheme, authority := base.authority, path := path, query := none, fragment := none },
        fun s hs => hurl.ok_of_parse (by rw [hs]; exact hpath), rfl, rfl⟩
    obtain ⟨endpoint, hparse, hendpointScheme, hendpointAuthority⟩ := happend "s".toList (forall_mem_of_all (by decide))
    obtain ⟨given, hgiven, hgivenScheme, hgivenAuthority⟩ : ∃ given,
        T.urlParse (String.ofList (B.spelling query n)) = .ok given ∧ given.scheme = lower B.scheme ∧
          given.authority = base.authority := by
      rcases B.spelling_cases query n with h | ⟨t, h, ht⟩
      · exact ⟨base, by rw [h, hbase], hscheme, rfl⟩
      · obtain ⟨given, hgiven, hparts⟩ := happend t ht
        exact ⟨given, hgiven _ (by rw [String.toList_ofList, h]), hparts⟩
    refine ⟨shortenerEndpoint_eq_ok_iff.2 ⟨?_, endpoint, hparse _ hendpoint⟩, given, endpoint, hgiven,
      hparse _ hendpoint, ?_⟩
    · rw [String.toList_ofList, htrim, ApiBase.endpoint]
    · rw [Url.SameOrigin, Url.hostText, Url.hostText, hendpointScheme, hgivenScheme, hendpointAuthority,
        hgivenAuthority]
      exact ⟨rfl, rfl, rfl⟩

end

/-- `https://api.cartridge.gg` -/
def publicApi : ApiBase where
  scheme := "https".toList
  authority := "api.cartridge.gg".toList
  path := []
  http := by decide
  authority_chars := forall_mem_of_all (by decide)
  authority_nonempty := by decide
  path_start := by simp
  path_clean := clean_nil
  path_end := by decide

theorem urlParse_publicApi : Crates.reference.urlParse (String.ofList publicApi.text) =
    .ok ⟨"https".toList, ⟨[], [], some "api.cartridge.gg".toList, none⟩, .segments [[]], none, none⟩ := by decide

theorem shortenerEndpoint_spelling_query : Normalized Crates.reference publicApi true 0 :=
  (shortenerEndpoint_spelling_iff Crates.reference Reference.urlStandard Reference.hostParser_standard publicApi
    urlParse_publicApi true 0).2 (by decide)

/-- A slash behind `/query` keeps it in the endpoint. -/
theorem shortenerEndpoint_query_slash :
    (∃ base, Crates.reference.urlParse (String.ofList publicApi.text) = .ok base) ∧
      ¬ Normalized Crates.reference publicApi true 1 := by
  refine ⟨⟨_, urlParse_publicApi⟩, ?_⟩
  rintro ⟨hok, _⟩
  have hquery : shortenerEndpoint Crates.reference (String.ofList (publicApi.spelling true 1)) =
      .ok "https://api.cartridge.gg/query/s" := by decide
  rw [hquery] at hok
  exact absurd hok (by decide)

end ControllerUniffi
