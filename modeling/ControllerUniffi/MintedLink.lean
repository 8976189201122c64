import ControllerUniffi.ApiBase
import ControllerUniffi.ShortLink

/-!
# The links of an endpoint

A shortener that serves the endpoint puts a code behind it.  The check of short links looks for `https` and for a
path of `/s/` and the code, so it accepts these links just for the endpoints that have this form already
(`validate_minted_iff`); the API's base URL is free to have another scheme and a longer path.
-/

namespace ControllerUniffi

open Text Whatwg

/-- The paths of links that end in a code: the path of the endpoint is `/s`, or the code goes to the query or the
fragment and the path is that of a short link without it. -/
def MintsShortPaths (endpoint : Url) : Prop :=
  endpoint.query = none ∧ endpoint.fragment = none ∧ endpoint.path.text = "/s".toList ∨
    (endpoint.query ≠ none ∨ endpoint.fragment ≠ none) ∧
      ∃ code, endpoint.path.text = "/s/".toList ++ code ∧ IsCode code

section

variable {hostParser : HostParser} {scheme rest code : List Char} {a : Authority} {path : Path}

/-- A code behind the endpoint is read behind its path, unless the endpoint's `/s` is taken for the host. -/
theorem parseHierarchy_code (hspecial : isSpecial scheme = true) (hfile : scheme ≠ "file".toList)
    (hcode : ∀ c ∈ code, c.isAlphanum = true)
    (h : parseHierarchy hostParser scheme (rest ++ "/s".toList) = some (a, path)) :
    ∃ path', parseHierarchy hostParser scheme (rest ++ "/s".toList ++ '/' :: code) = some (a, path') ∧
      (path'.text = path.text ++ '/' :: code ∨ path.text ≠ "/s".toList ∧ path'.text = '/' :: code) := by
  have hsegs : ∀ s ∈ [code], ∀ c ∈ s, c.isAlphanum = true := by simpa using hcode
  have hcodeText : (Path.segments [code]).text = '/' :: code := by simp [Path.text]
  have hnot : ∃ c ∈ rest ++ "/s".toList, isSlash true c = false := ⟨'s', by simp, by decide⟩
  obtain ⟨slashes, authority, p, htext, hslashes, hne, hauthority, hp⟩ := exists_authority hnot
  rw [htext] at h ⊢
  cases p with
  | nil =>
    have hat := atAuthority_special hostParser hspecial hfile hslashes hne hauthority
    obtain ⟨segs, hsegments, hstop⟩ := hat.stop
    rw [List.append_nil] at h ⊢
    rw [hstop] at h
    obtain ⟨b, hb, he⟩ := Option.map_eq_some_iff.1 h
    cases he
    have hcodePath : parsePath scheme code = [code] := by
      simpa using parsePath_plain hsegs scheme
    refine ⟨_, by rw [hat.read, hb]; rfl, .inr ⟨?_, by rw [hcodePath, hcodeText]⟩⟩
    rcases hsegments with rfl | rfl <;> decide
  | cons c q =>
    have hin := inPath_special hostParser hspecial hfile hslashes hne hauthority (hp c rfl) q
    -- the path ends in `s`, which is the end of no dot segment
    obtain ⟨q', rfl⟩ : ∃ q', q = q' ++ ['s'] := by
      have hend : endsIn (isSlash (isSpecial scheme)) (slashes ++ authority ++ c :: q) = false := by
        rw [← htext, hspecial, endsIn_append (by decide)]
        rfl
      rcases List.eq_nil_or_concat q with rfl | ⟨q', d, rfl⟩
      · rw [hin.slash rfl] at hend
        cases hend
      · rw [List.concat_eq_append] at htext ⊢
        have hlast : endsIn (· = 's') (slashes ++ authority ++ c :: q' ++ [d]) = true := by
          rw [List.append_assoc _ (c :: q'), List.cons_append, ← htext, endsIn_append (by decide)]
          rfl
        rw [endsIn_concat] at hlast
        exact ⟨q', by rw [of_decide_eq_true hlast]⟩
    have hread := hin.read [] (by simp)
    rw [List.append_nil, List.append_nil, h] at hread
    obtain ⟨b, hb, he⟩ := Option.map_eq_some_iff.1 hread.symm
    cases he
    have hslash : isSlash (isSpecial scheme) 's' = false := by rw [hspecial]; decide
    refine ⟨_, by rw [hin.read ('/' :: code) (by simp), hb]; rfl, .inl ?_⟩
    have hbehind := parsePath_append_plain hsegs scheme (q' ++ ['s'])
    rw [List.flatMap_cons, List.flatMap_nil, List.append_nil] at hbehind
    rw [hbehind, parsePath_concat hslash (by decide) (by decide), Path.text_append, hcodeText]

end

section

variable {T : Crates} {base code : List Char} {endpoint : Url}

theorem not_space_of_isCode (hcode : IsCode code) :
    ∀ c ∈ '/' :: ("s".toList ++ '/' :: code), isC0OrSpace c = false := by
  intro c hc
  rcases List.mem_append.1 (show c ∈ "/s/".toList ++ code from hc) with hc | hc
  · exact forall_mem_of_all (P := fun c => isC0OrSpace c = false) (by decide) c hc
  · exact (isPlainChar_ne (isPlainChar_of_isAlphanum (hcode.2 c hc))).1

/-- The endpoint and the link differ in what stands behind their common beginning. -/
theorem splitScheme_minted (hurl : T.UrlStandard) (hparse : T.urlParse (String.ofList base ++ "/s") = .ok endpoint)
    (hcode : IsCode code) : ∃ rest,
      splitScheme (preprocess (base ++ "/s".toList)) = some (endpoint.scheme, rest ++ "/s".toList) ∧
      splitScheme (preprocess (base ++ '/' :: ("s".toList ++ '/' :: code))) =
        some (endpoint.scheme, rest ++ "/s".toList ++ '/' :: code) := by
  have hendpoint : (String.ofList base ++ "/s").toList = base ++ '/' :: "s".toList := by simp
  obtain ⟨_, hscheme, _⟩ := parse_eq_some_iff.1 (hurl.parse_of_ok hparse)
  rw [hendpoint, splitScheme_preprocess_append (forall_mem_of_all (by decide))] at hscheme
  obtain ⟨⟨scheme, rest⟩, hrest, heq⟩ := Option.map_eq_some_iff.1 hscheme
  obtain ⟨rfl, _⟩ := Prod.mk.inj heq
  refine ⟨rest, ?_, ?_⟩
  · refine (splitScheme_preprocess_append (t := "s".toList) (forall_mem_of_all (by decide)) base).trans ?_
    rw [hrest]
    rfl
  · rw [splitScheme_preprocess_append (not_space_of_isCode hcode), hrest]
    simp

/-- Behind a short path or none, ten letters and digits are a short path. -/
theorem isShortPath_iff {path path' : Path} (hcode : IsCode code)
    (h : path'.text = path.text ++ '/' :: code ∨ path.text ≠ "/s".toList ∧ path'.text = '/' :: code) :
    (∃ code', path'.text = "/s/".toList ++ code' ∧ IsCode code') ↔ path.text = "/s".toList := by
  rcases h with h | ⟨hne, h⟩
  · rw [h]
    constructor
    · rintro ⟨code', heq, hcode'⟩
      have hsplit : path.text ++ '/' :: code = "/s".toList ++ '/' :: code' := heq
      exact (List.append_inj' hsplit (by simp [hcode.1, hcode'.1])).1
    · intro hpath
      exact ⟨code, by rw [hpath]; rfl, hcode⟩
  · rw [h]
    refine iff_of_false ?_ hne
    rintro ⟨code', heq, _⟩
    have hslash : '/' ∈ code := by
      have : code = 's' :: '/' :: code' := (List.cons.inj heq).2
      simp [this]
    exact absurd (hcode.2 _ hslash) (by decide)

/-- The code goes behind the path, or to the query or the fragment of an endpoint that has one. -/
private theorem exists_mintedPath (hcode : IsCode code) {rest : List Char} (hhttps : endpoint.scheme = "https".toList)
    (hpath : parseHierarchy T.hostParser endpoint.scheme
      ((rest ++ "/s".toList).takeWhile fun c => c ≠ '?' ∧ c ≠ '#') = some (endpoint.authority, endpoint.path))
    (hnone : endpoint.query = none ∧ endpoint.fragment = none ↔ Clean (rest ++ "/s".toList)) :
    ∃ path, parseHierarchy T.hostParser endpoint.scheme
        ((rest ++ "/s".toList ++ '/' :: code).takeWhile fun c => c ≠ '?' ∧ c ≠ '#') = some (endpoint.authority, path) ∧
      ((∃ code', path.text = "/s/".toList ++ code' ∧ IsCode code') ↔ MintsShortPaths endpoint) := by
  by_cases hclean : Clean (rest ++ "/s".toList)
  · have hclean' : Clean (rest ++ "/s".toList ++ '/' :: code) := by
      refine Clean.append hclean (Clean.cons (by decide) fun c hc => ?_)
      obtain ⟨_, hne⟩ := isPlainChar_ne (isPlainChar_of_isAlphanum (hcode.2 c hc))
      simp only [List.mem_cons, not_or] at hne
      exact ⟨hne.1, hne.2.1⟩
    rw [takeWhile_of_clean hclean, hhttps] at hpath
    obtain ⟨path, hcodePath, htext⟩ := parseHierarchy_code (by decide) (by decide) hcode.2 hpath
    refine ⟨path, by rw [takeWhile_of_clean hclean', hhttps, hcodePath], ?_⟩
    rw [isShortPath_iff hcode htext, MintsShortPaths, ← and_assoc]
    constructor
    · exact fun h => .inl ⟨hnone.2 hclean, h⟩
    · rintro (⟨_, h⟩ | ⟨h, _⟩)
      · exact h
      · exact absurd (hnone.2 hclean) (by simpa [imp_iff_not_or] using h)
  · refine ⟨endpoint.path, by rw [← hpath, takeWhile_append_of_not_clean hclean], ?_⟩
    constructor
    · exact fun h => .inr ⟨by simpa [imp_iff_not_or] using fun h' => hclean (hnone.1 h'), h⟩
    · rintro (⟨hquery, hfragment, _⟩ | ⟨_, h⟩)
      · exact absurd (hnone.1 ⟨hquery, hfragment⟩) hclean
      · exact h

/-- Under https, the link of a parsed endpoint parses, with the same host. -/
theorem exists_minted (hurl : T.UrlStandard) (hparse : T.urlParse (String.ofList base ++ "/s") = .ok endpoint)
    (hhttps : endpoint.scheme = "https".toList) (hcode : IsCode code) :
    ∃ link, T.urlParse (String.ofList (base ++ '/' :: ("s".toList ++ '/' :: code))) = .ok link ∧
      link.scheme = "https".toList ∧ link.hostText = endpoint.hostText ∧
      ((∃ code', link.path.text = "/s/".toList ++ code' ∧ IsCode code') ↔ MintsShortPaths endpoint) := by
  obtain ⟨rest, hsplit, hlink⟩ := splitScheme_minted hurl hparse hcode
  have hendpoint : (String.ofList base ++ "/s").toList = base ++ "/s".toList := by simp
  obtain ⟨rest', hsplit', hpath, hquery, hfragment⟩ := parse_eq_some_iff.1 (hurl.parse_of_ok hparse)
  rw [hendpoint, hsplit] at hsplit'
  obtain ⟨_, rfl⟩ := Prod.mk.inj (Option.some.inj hsplit')
  have hnone : endpoint.query = none ∧ endpoint.fragment = none ↔ Clean (rest ++ "/s".toList) := by
    rw [hquery, hfragment, Option.map_eq_none_iff, Option.map_eq_none_iff, clean_iff]
  obtain ⟨path, hpathLink, hshort⟩ := exists_mintedPath hcode hhttps hpath hnone
  obtain ⟨link, hparseLink, hscheme, hauthority, hpathEq⟩ := exists_parse hlink hpathLink
  refine ⟨link, hurl.ok_of_parse (by rw [String.toList_ofList]; exact hparseLink), hscheme.trans hhttps, ?_, ?_⟩
  · rw [Url.hostText, hauthority, Url.hostText]
  · rw [hpathEq]
    exact hshort

end

section

variable (T : Crates)

/-- The link that is minted for a code is accepted iff the endpoint is an https URL and makes short paths. -/
theorem validate_minted_iff (hurl : T.UrlStandard) {cartridgeApiUrl e : String} {endpoint : Url} {host code : List Char}
    (he : shortenerEndpoint T cartridgeApiUrl = .ok e) (hparse : T.urlParse e = .ok endpoint)
    (hhost : endpoint.hostText = some host) (hcode : IsCode code) :
    validateShortenedSessionUrl T (e ++ "/" ++ String.ofList code) (String.ofList host) = .ok () ↔
      endpoint.scheme = "https".toList ∧ MintsShortPaths endpoint := by
  obtain ⟨rfl, _⟩ := shortenerEndpoint_eq_ok_iff.1 he
  generalize trimApiUrl cartridgeApiUrl.toList = base at hparse ⊢
  have hlinkText : String.ofList base ++ "/s" ++ "/" ++ String.ofList code =
      String.ofList (base ++ '/' :: ("s".toList ++ '/' :: code)) := by
    apply String.toList_injective
    simp
  rw [hlinkText, validateShortenedSessionUrl_eq_ok_iff]
  constructor
  · rintro ⟨link, host', code', hlink, hscheme, hhost', hlower, hpath, hcode'⟩
    obtain ⟨rest, _, hsplit⟩ := splitScheme_minted hurl hparse hcode
    obtain ⟨_, hsplit', _⟩ := parse_eq_some_iff.1 (hurl.parse_of_ok hlink)
    rw [String.toList_ofList, hsplit] at hsplit'
    have hhttps : endpoint.scheme = "https".toList := by
      rw [← hscheme, (Prod.mk.inj (Option.some.inj hsplit')).1]
    obtain ⟨link', hlink', _, _, hshort⟩ := exists_minted hurl hparse hhttps hcode
    cases hlink.symm.trans hlink'
    exact ⟨hhttps, hshort.1 ⟨code', hpath, hcode'⟩⟩
  · rintro ⟨hhttps, hshort⟩
    obtain ⟨link, hlink, hscheme, hhostText, hshort'⟩ := exists_minted hurl hparse hhttps hcode
    obtain ⟨code', hpath, hcode'⟩ := hshort'.2 hshort
    exact ⟨link, host, code', hlink, hscheme, hhostText.trans hhost, by rw [String.toList_ofList], hpath, hcode'⟩

end

theorem isCode_sample : IsCode "a1B2c3D4e5".toList := ⟨by decide, forall_mem_of_all (by decide)⟩

theorem validate_minted_api :
    validateShortenedSessionUrl Crates.reference ("https://api.cartridge.gg/s" ++ "/" ++ String.ofList "a1B2c3D4e5".toList)
      (String.ofList "api.cartridge.gg".toList) = .ok () := by
  have he : shortenerEndpoint Crates.reference "https://api.cartridge.gg/query" = .ok "https://api.cartridge.gg/s" := by
    decide
  have hparse : Crates.reference.urlParse "https://api.cartridge.gg/s" =
      .ok ⟨"https".toList, ⟨[], [], some "api.cartridge.gg".toList, none⟩, .segments ["s".toList], none, none⟩ := by
    decide
  apply (validate_minted_iff Crates.reference Reference.urlStandard he hparse (by decide) isCode_sample).2
  exact ⟨rfl, .inl ⟨rfl, rfl, by decide⟩⟩

/-- The links of an API below a path are all refused. -/
theorem validate_minted_prefix :
    ¬ ∀ (cartridgeApiUrl e : String) (endpoint : Url) (host code : List Char),
      shortenerEndpoint Crates.reference cartridgeApiUrl = .ok e → Crates.reference.urlParse e = .ok endpoint →
      endpoint.hostText = some host → IsCode code →
      validateShortenedSessionUrl Crates.reference (e ++ "/" ++ String.ofList code) (String.ofList host) = .ok () := by
  intro h
  have hok := h "https://api.cartridge.gg/v1" "https://api.cartridge.gg/v1/s"
    ⟨"https".toList, ⟨[], [], some "api.cartridge.gg".toList, none⟩, .segments ["v1".toList, "s".toList], none, none⟩
    "api.cartridge.gg".toList "a1B2c3D4e5".toList (by decide) (by decide) (by decide) isCode_sample
  have herror : validateShortenedSessionUrl Crates.reference
      ("https://api.cartridge.gg/v1/s" ++ "/" ++ String.ofList "a1B2c3D4e5".toList) (String.ofList "api.cartridge.gg".toList) =
        .error (.networkError "Short URL has invalid code format") := by decide +kernel
  rw [herror] at hok
  cases hok

end ControllerUniffi
