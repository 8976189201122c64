import ControllerUniffi.LongUrl
import ControllerUniffi.Url.SubpageSpaces

/-!
# The registration page

The page that registrations are sent to is meant to be the `/session` page of the keychain.  The code puts the segment
behind the text of `keychain_url` and parses only the result, so a query, a fragment, a missing host or a path that
ends in other slashes takes it elsewhere; `longUrl_page_iff` says when it does not.
-/

namespace ControllerUniffi

open Text Whatwg

/-- `keychain_url` is a URL, and the page is the one called `session` below it. -/
def IsSessionPage (T : Crates) (keychainUrl : String) (page : Url) : Prop :=
  ∃ keychain, T.urlParse keychainUrl = .ok keychain ∧ page.SameOrigin keychain ∧
    page.path.text = trimEnd '/' keychain.path.text ++ "/session".toList ∧ page.fragment = none

/-- A URL whose text goes on with the path: no query and no fragment, no spaces at the end, and no slash left when the
trailing ones are gone, neither in the text nor in the path. -/
def GoesOnWithPath (T : Crates) (keychainUrl : String) : Prop :=
  ∃ keychain rest, T.urlParse keychainUrl = .ok keychain ∧
    splitScheme (strip (trimEnd '/' keychainUrl.toList)) = some (keychain.scheme, rest) ∧ Clean rest ∧
    endsIn isC0OrSpace (strip keychainUrl.toList) = false ∧ EndsClear keychain.scheme rest ∧
    trailing '/' keychain.path.text ≤ max (trailing '/' keychainUrl.toList) 1

/-- Appending the registration changes only the query. -/
theorem appendRegistration_parts (url : Url) (publicKey json rpcUrl : String) (preset : Option String) :
    (appendRegistration url publicKey json rpcUrl preset).scheme = url.scheme ∧
      (appendRegistration url publicKey json rpcUrl preset).authority = url.authority ∧
      (appendRegistration url publicKey json rpcUrl preset).path = url.path ∧
      (appendRegistration url publicKey json rpcUrl preset).fragment = url.fragment := by
  unfold appendRegistration
  cases preset.filter (· ≠ "") <;> exact ⟨rfl, rfl, rfl, rfl⟩

theorem isSessionPage_append_iff {T : Crates} {keychainUrl : String} (url : Url) (publicKey json rpcUrl : String)
    (preset : Option String) : IsSessionPage T keychainUrl (appendRegistration url publicKey json rpcUrl preset) ↔
      IsSessionPage T keychainUrl url := by
  obtain ⟨hscheme, hauthority, hpath, hfragment⟩ := appendRegistration_parts url publicKey json rpcUrl preset
  simp only [IsSessionPage, Url.SameOrigin, Url.hostText, hscheme, hauthority, hpath, hfragment]

section

variable {T : Crates} {keychainUrl : String} {base keychain : Url}

/-- The scheme of the base and the text behind it, from `keychain_url` without its trailing slashes. -/
theorem splitScheme_base (hurl : T.UrlStandard) (hbase : registrationBase T keychainUrl = .ok base) :
    ∃ rest, splitScheme (strip (trimEnd '/' keychainUrl.toList)) = some (base.scheme, rest) ∧
      parseHierarchy T.hostParser base.scheme
        ((rest ++ "/session".toList).takeWhile fun c => c ≠ '?' ∧ c ≠ '#') = some (base.authority, base.path) ∧
      (base.fragment = none ↔ '#' ∉ rest) := by
  have hparse := hurl.parse_of_ok hbase
  have htext : (String.ofList (trimEnd '/' keychainUrl.toList) ++ "/session").toList =
      trimEnd '/' keychainUrl.toList ++ '/' :: "session".toList := by simp
  rw [htext] at hparse
  obtain ⟨rest', hscheme, hpath, _, hfragment⟩ := parse_eq_some_iff.1 hparse
  rw [splitScheme_preprocess_append (forall_mem_of_all (by decide))] at hscheme
  obtain ⟨⟨scheme, rest⟩, hrest, heq⟩ := Option.map_eq_some_iff.1 hscheme
  obtain ⟨rfl, rfl⟩ := Prod.mk.inj heq
  refine ⟨rest, hrest, hpath, ?_⟩
  rw [hfragment, Option.map_eq_none_iff]
  constructor
  · exact fun hnone hmem => fragmentText_ne_none (List.mem_append_left _ hmem) hnone
  · intro hnot
    refine fragmentText_eq_none fun hmem => ?_
    rcases List.mem_append.1 hmem with hmem | hmem
    · exact hnot hmem
    · exact absurd hmem (by decide)

theorem strip_keychain (keychainUrl : String) : strip keychainUrl.toList =
    strip (trimEnd '/' keychainUrl.toList) ++ List.replicate (trailing '/' keychainUrl.toList) '/' := by
  rw [← strip_append fun c hc => by rw [List.eq_of_mem_replicate hc]; rfl, trimEnd_append_replicate]

theorem splitScheme_strip {scheme rest : List Char}
    (h : splitScheme (strip (trimEnd '/' keychainUrl.toList)) = some (scheme, rest)) :
    splitScheme (strip keychainUrl.toList) =
      some (scheme, rest ++ List.replicate (trailing '/' keychainUrl.toList) '/') := by
  rw [strip_keychain]
  cases trailing '/' keychainUrl.toList with
  | zero => rw [List.replicate_zero, List.append_nil, List.append_nil, h]
  | succ n => rw [List.replicate_succ, splitScheme_append_slash, h]; rfl

/-- The same of the keychain itself: its trailing slashes are there, spaces at the end are not. -/
theorem splitScheme_keychain (hurl : T.UrlStandard) (hkeychain : T.urlParse keychainUrl = .ok keychain) {scheme rest}
    (h : splitScheme (strip (trimEnd '/' keychainUrl.toList)) = some (scheme, rest)) :
    keychain.scheme = scheme ∧ ∃ before spaces,
      rest ++ List.replicate (trailing '/' keychainUrl.toList) '/' = before ++ spaces ∧
      (∀ c ∈ spaces, isC0OrSpace c = true) ∧ strip keychainUrl.toList = preprocess keychainUrl.toList ++ spaces ∧
      parseHierarchy T.hostParser scheme (before.takeWhile fun c => c ≠ '?' ∧ c ≠ '#') =
        some (keychain.authority, keychain.path) := by
  obtain ⟨before, hbefore, hpath, _⟩ := parse_eq_some_iff.1 (hurl.parse_of_ok hkeychain)
  obtain ⟨spaces, hspaces, hall⟩ := exists_strip_eq keychainUrl.toList
  have hdropped : splitScheme (strip keychainUrl.toList) = some (keychain.scheme, before ++ spaces) := by
    rw [hspaces]
    cases spaces with
    | nil => rw [List.append_nil, List.append_nil, hbefore]
    | cons c t =>
      have hc := hall c List.mem_cons_self
      rw [splitScheme_append (isSchemeChar_space hc) (by rintro rfl; cases hc), hbefore]
      rfl
  obtain ⟨hscheme, heq⟩ := Prod.mk.inj (Option.some.inj (hdropped.symm.trans (splitScheme_strip h)))
  rw [hscheme] at hpath
  exact ⟨hscheme, before, spaces, heq.symm, hall, hspaces, hpath⟩

/-- A path is not its own `/session` page. -/
private theorem text_ne_session (text : List Char) : text ≠ trimEnd '/' text ++ "/session".toList := by
  intro h
  have hend : endsIn (· = '/') text = false := by
    rw [h, endsIn_append (by decide)]
    rfl
  rw [trimEnd_of_endsIn hend] at h
  have hlen := congrArg List.length h
  simp at hlen

private theorem clean_slashes {rest : List Char} (h : Clean rest) (n : Nat) : Clean (rest ++ List.replicate n '/') :=
  Clean.append h fun c hc => by rw [List.eq_of_mem_replicate hc]; decide

section

variable {rest : List Char} (hurl : T.UrlStandard)
  (hrest : splitScheme (strip (trimEnd '/' keychainUrl.toList)) = some (base.scheme, rest))

include hurl hrest

/-- What is behind the scheme is known from the base. -/
private theorem goesOnWithPath_iff : GoesOnWithPath T keychainUrl ↔
    ∃ keychain, T.urlParse keychainUrl = .ok keychain ∧ Clean rest ∧
      endsIn isC0OrSpace (strip keychainUrl.toList) = false ∧ EndsClear base.scheme rest ∧
      trailing '/' keychain.path.text ≤ max (trailing '/' keychainUrl.toList) 1 := by
  constructor
  · rintro ⟨keychain, rest', hkeychain, hrest', h⟩
    obtain ⟨hscheme, rfl⟩ := Prod.mk.inj (Option.some.inj (hrest'.symm.trans hrest))
    rw [hscheme] at h
    exact ⟨keychain, hkeychain, h⟩
  · rintro ⟨keychain, hkeychain, h⟩
    obtain ⟨hscheme, _⟩ := splitScheme_keychain hurl hkeychain hrest
    rw [← hscheme] at h hrest
    exact ⟨keychain, rest, hkeychain, hrest, h⟩

/-- Into a query or a fragment, the segment does not change the path. -/
private theorem not_isSessionPage_of_not_clean (hclean : ¬ Clean rest) (hpage : parseHierarchy T.hostParser base.scheme
      ((rest ++ "/session".toList).takeWhile fun c => c ≠ '?' ∧ c ≠ '#') = some (base.authority, base.path)) :
    ¬ IsSessionPage T keychainUrl base := by
  rintro ⟨keychain, hkeychain, _, hpath, _⟩
  obtain ⟨_, before, spaces, heq, hall, _, hkey⟩ := splitScheme_keychain hurl hkeychain hrest
  have hbefore : ¬ Clean before := by
    intro h
    refine hclean (Clean.of_subset (Clean.append h fun c hc => ?_) fun c hc => heq ▸ List.mem_append_left _ hc)
    constructor <;> (rintro rfl; cases hall _ hc)
  rw [← takeWhile_append_of_not_clean hbefore spaces, ← heq, takeWhile_append_of_not_clean hclean] at hkey
  rw [takeWhile_append_of_not_clean hclean, hkey] at hpage
  obtain ⟨_, hsame⟩ := Prod.mk.inj (Option.some.inj hpage)
  rw [← hsame] at hpath
  exact text_ne_session _ hpath

section

variable (hclean : Clean rest)

include hclean

/-- Spaces at the end of the keychain are dropped from it, and not from the base. -/
private theorem not_isSessionPage_of_spaces (hhosts : T.hostParser.Standard)
    (hspace : endsIn isC0OrSpace (strip keychainUrl.toList) = true)
    (hpage : parseHierarchy T.hostParser base.scheme (rest ++ "/session".toList) = some (base.authority, base.path)) :
    ¬ IsSessionPage T keychainUrl base := by
  rintro ⟨keychain, hkeychain, ⟨_, hhost, hport⟩, hpath, _⟩
  obtain ⟨_, before, spaces, heq, hall, hstrip, hkey⟩ := splitScheme_keychain hurl hkeychain hrest
  have hne : spaces ≠ [] := by
    rintro rfl
    rw [hstrip, List.append_nil, endsIn_preprocess] at hspace
    cases hspace
  have hslashes : trailing '/' keychainUrl.toList = 0 := by
    by_contra hn
    rw [strip_keychain, endsIn_append (by simpa using hn), endsIn_eq_false_of_forall] at hspace
    · cases hspace
    · intro c hc
      rw [List.eq_of_mem_replicate hc]
      rfl
  rw [hslashes, List.replicate_zero, List.append_nil] at heq
  have hbefore : Clean before := hclean.of_subset fun c hc => heq ▸ List.mem_append_left _ hc
  rw [takeWhile_of_clean hbefore] at hkey
  rw [heq] at hpage
  exact not_isSubpage_of_spaces hne hall hhosts (forall_mem_of_all (by decide)) hpage hkey ⟨⟨hhost, hport⟩, hpath⟩

variable (hspace : endsIn isC0OrSpace (strip keychainUrl.toList) = false)

include hspace

/-- Without spaces at its end, the keychain is what its text with all the slashes is parsed to. -/
private theorem parseHierarchy_keychain (hkeychain : T.urlParse keychainUrl = .ok keychain) :
    keychain.scheme = base.scheme ∧
      parseHierarchy T.hostParser base.scheme (rest ++ List.replicate (trailing '/' keychainUrl.toList) '/') =
        some (keychain.authority, keychain.path) := by
  obtain ⟨hscheme, before, spaces, heq, _, hstrip, hpath⟩ := splitScheme_keychain hurl hkeychain hrest
  have hnil : spaces = [] := List.self_eq_append_right.1 (preprocess_eq_strip hspace ▸ hstrip)
  rw [hnil, List.append_nil] at heq
  rw [← heq, takeWhile_of_clean (clean_slashes hclean _)] at hpath
  exact ⟨hscheme, hpath⟩

private theorem isSessionPage_iff_of_clean (hhosts : T.hostParser.Standard) (hnone : base.fragment = none)
    (hpage : parseHierarchy T.hostParser base.scheme (rest ++ "/session".toList) = some (base.authority, base.path)) :
    IsSessionPage T keychainUrl base ↔ ∃ keychain, T.urlParse keychainUrl = .ok keychain ∧ EndsClear base.scheme rest ∧
      trailing '/' keychain.path.text ≤ max (trailing '/' keychainUrl.toList) 1 := by
  have hempty : ∀ host, T.hostParser false [] = some host → host = [] :=
    fun host h => hhosts.opaque_host [] host (by simp) h
  have hname : ∀ c ∈ "session".toList, c.isAlphanum = true := forall_mem_of_all (by decide)
  have hdecides := decides_parseHierarchy hempty hname (by decide) base.scheme rest (trailing '/' keychainUrl.toList) _ hpage
  constructor
  · rintro ⟨keychain, hkeychain, ⟨_, hhost, hport⟩, hpath, _⟩
    obtain ⟨_, hkey⟩ := parseHierarchy_keychain hurl hrest hclean hspace hkeychain
    obtain ⟨hclear, k, hk, hle⟩ := hdecides.1 ⟨_, hkey, ⟨hhost, hport⟩, hpath⟩
    rw [hkey] at hk
    cases hk
    exact ⟨keychain, hkeychain, hclear, hle⟩
  · rintro ⟨keychain, hkeychain, hclear, hle⟩
    obtain ⟨hscheme, hkey⟩ := parseHierarchy_keychain hurl hrest hclean hspace hkeychain
    obtain ⟨k, hk, ⟨hhost, hport⟩, hpath⟩ := hdecides.2 ⟨hclear, _, hkey, hle⟩
    rw [hkey] at hk
    cases hk
    exact ⟨keychain, hkeychain, ⟨hscheme.symm, hhost, hport⟩, hpath, hnone⟩

end

end

theorem isSessionPage_base_iff (hurl : T.UrlStandard) (hhosts : T.hostParser.Standard)
    (hbase : registrationBase T keychainUrl = .ok base) :
    IsSessionPage T keychainUrl base ↔ GoesOnWithPath T keychainUrl := by
  obtain ⟨rest, hrest, hpage, hfragment⟩ := splitScheme_base hurl hbase
  rw [goesOnWithPath_iff hurl hrest]
  by_cases hclean : Clean rest
  · have hnone : base.fragment = none := hfragment.2 fun hmem => (hclean _ hmem).2 rfl
    rw [takeWhile_of_clean (Clean.append hclean (by simp [Clean]))] at hpage
    cases hspace : endsIn isC0OrSpace (strip keychainUrl.toList) with
    | false =>
      rw [isSessionPage_iff_of_clean hurl hrest hclean hspace hhosts hnone hpage]
      simp [hclean]
    | true =>
      refine iff_of_false (not_isSessionPage_of_spaces hurl hrest hclean hhosts hspace hpage) ?_
      rintro ⟨_, _, _, hfalse, _⟩
      cases hfalse
  · refine iff_of_false (not_isSessionPage_of_not_clean hurl hrest hclean hpage) ?_
    rintro ⟨_, _, h, _⟩
    exact hclean h

end

/-! ### The registration -/

/-- The text is that of the base with the registration appended, and this URL is the `/session` page of the keychain. -/
def RegistersAtKeychain (T : Crates) (publicKey : String) (policies : SessionPolicies) (rpcUrl keychainUrl : String)
    (preset : Option String) (u : String) : Prop :=
  ∃ canonical base, canonicalizeSessionPolicies T policies = .ok canonical ∧
    registrationBase T keychainUrl = .ok base ∧
    u = String.ofList
      (appendRegistration base publicKey (policiesJson (policyPayload canonical)) rpcUrl preset).serialize ∧
    IsSessionPage T keychainUrl (appendRegistration base publicKey (policiesJson (policyPayload canonical)) rpcUrl preset)

section

variable (T : Crates)

/-- A registration that is built goes to the `/session` page of the keychain iff the text of `keychain_url` goes on
with its path. -/
theorem longUrl_page_iff (hurl : T.UrlStandard) (hhosts : T.hostParser.Standard) (hjson : T.WritesJson)
    {publicKey : String} {policies : SessionPolicies} {rpcUrl keychainUrl : String} {preset : Option String} {u : String}
    (h : buildSessionRegistrationLongUrl T publicKey policies rpcUrl keychainUrl preset = .ok u) :
    RegistersAtKeychain T publicKey policies rpcUrl keychainUrl preset u ↔ GoesOnWithPath T keychainUrl := by
  obtain ⟨canonical, base, hcanonical, hbase, hu⟩ := (buildLongUrl_eq_ok_iff hjson).1 h
  rw [← isSessionPage_base_iff hurl hhosts hbase]
  constructor
  · rintro ⟨canonical', base', _, hbase', _, hpage⟩
    cases hbase.symm.trans hbase'
    exact (isSessionPage_append_iff ..).1 hpage
  · intro hpage
    exact ⟨canonical, base, hcanonical, hbase, hu, (isSessionPage_append_iff ..).2 hpage⟩

end

theorem longUrl_page_public : RegistersAtKeychain Crates.reference "0x1" ⟨[], ⟨"0x0"⟩⟩ "" keychainBaseUrl none
    "https://x.cartridge.gg/session?public_key=0x1&policies=%5B%5D&rpc_url=" := by
  apply (longUrl_page_iff Crates.reference Reference.urlStandard Reference.hostParser_standard Reference.writesJson
    (by decide +kernel)).2
  exact ⟨⟨"https".toList, ⟨[], [], some "x.cartridge.gg".toList, none⟩, .segments [[]], none, none⟩,
    "//x.cartridge.gg".toList, by decide, by decide, forall_mem_of_all (by decide), by decide, .inl (by decide), by decide⟩

/-- Without a host in `keychain_url`, the segment becomes the host. -/
theorem longUrl_page_noHost :
    buildSessionRegistrationLongUrl Crates.reference "0x1" ⟨[], ⟨"0x0"⟩⟩ "" "https://" none =
        .ok "https://session/?public_key=0x1&policies=%5B%5D&rpc_url=" ∧
      ¬ RegistersAtKeychain Crates.reference "0x1" ⟨[], ⟨"0x0"⟩⟩ "" "https://" none
        "https://session/?public_key=0x1&policies=%5B%5D&rpc_url=" := by
  refine ⟨by decide +kernel, ?_⟩
  rintro ⟨_, _, _, _, _, keychain, hkeychain, _⟩
  have herror : Crates.reference.urlParse "https://" = .error "invalid URL" := by decide
  rw [herror] at hkeychain
  cases hkeychain

end ControllerUniffi
