import ControllerUniffi.Shortener

/-!
# Short links

The answer of the shortener is accepted by the scheme, the host and the path of the parsed link; its other parts are
free.  Every link that consists of just these three parts is accepted (`parseShortenResponse_spec`).
-/

namespace ControllerUniffi

open Text Whatwg Collect

/-- A lowercase ASCII domain that the host parser leaves as it is. -/
structure DnsHost (T : Crates) (host : String) : Prop where
  nonempty : host.toList ≠ []
  chars : ∀ c ∈ host.toList, isPlainChar c = true ∧ c.toLower = c
  unchanged : T.hostParser true host.toList = some host.toList

/-- The ten letters and digits of a short link. -/
def IsCode (code : List Char) : Prop := code.length = 10 ∧ ∀ c ∈ code, c.isAlphanum = true

/-- Up to letter case of scheme and host, `https://`, the host, `/s/` and a code. -/
def Genuine (expectedHost u : String) : Prop :=
  ∃ scheme host code, u.toList = scheme ++ "://".toList ++ host ++ "/s/".toList ++ code ∧
    lower scheme = "https".toList ∧ lower host = expectedHost.toList ∧ IsCode code

section

variable {T : Crates} {expectedHost u : String}

theorem DnsHost.lower_eq (h : DnsHost T expectedHost) : lower expectedHost.toList = expectedHost.toList := by
  refine (List.map_congr_left fun c hc => (h.chars c hc).2).trans (List.map_id _)

/-- The length of the UTF-8 bytes is that of the code when all its characters are ASCII. -/
theorem isCode_iff {code : List Char} :
    IsCode code ↔ (encode code).length = 10 ∧ code.all Char.isAlphanum = true := by
  have hlength : code.all Char.isAlphanum = true → (encode code).length = code.length := by
    intro h
    rw [encode_ascii fun c hc => ascii_of_isAlphanum (List.all_eq_true.1 h c hc), List.length_map]
  unfold IsCode
  rw [← List.all_eq_true]
  constructor
  · rintro ⟨hlen, hall⟩
    exact ⟨(hlength hall).trans hlen, hall⟩
  · rintro ⟨hlen, hall⟩
    exact ⟨(hlength hall).symm.trans hlen, hall⟩

/-- What is looked at: the scheme, the host and the path. -/
theorem validateShortenedSessionUrl_eq_ok_iff : validateShortenedSessionUrl T u expectedHost = .ok () ↔
    ∃ url host code, T.urlParse u = .ok url ∧ url.scheme = "https".toList ∧ url.hostText = some host ∧
      lower host = lower expectedHost.toList ∧ url.path.text = "/s/".toList ++ code ∧ IsCode code := by
  unfold validateShortenedSessionUrl
  rw [bind_eq_ok_iff]
  constructor
  · rintro ⟨url, hurl, h⟩
    dsimp only at h
    split at h
    · cases h
    rename_i hhost
    split at h
    · cases h
    rename_i hcode
    simp only [ne_eq, not_or, Decidable.not_not, Bool.not_eq_false] at hhost hcode
    obtain ⟨hscheme, hhost⟩ := hhost
    cases htext : url.hostText with
    | none => simp [htext] at hhost
    | some host =>
      have hlower : lower host = lower expectedHost.toList := by simpa [htext, eqIgnoreCase] using hhost
      cases hpath : dropPrefix? "/s/".toList url.path.text with
      | none =>
        rw [hpath] at hcode
        exact absurd hcode.1 (by decide)
      | some code =>
        rw [hpath] at hcode
        exact ⟨url, host, code, mapError_eq_ok_iff.1 hurl, hscheme, htext, hlower, eq_append_of_dropPrefix? hpath,
          isCode_iff.2 hcode⟩
  · rintro ⟨url, host, code, hurl, hscheme, htext, hlower, hpath, hcode⟩
    refine ⟨url, mapError_eq_ok_iff.2 hurl, ?_⟩
    have hcode' := isCode_iff.1 hcode
    have hdrop : dropPrefix? "/s/".toList url.path.text = some code := by rw [hpath, dropPrefix?_append]
    simp only [hscheme, htext, Option.map_some, Option.getD_some, eqIgnoreCase, hlower, hdrop, hcode']
    rfl

/-- A genuine link is a plain URL. -/
theorem parse_genuine (hurl : T.UrlStandard) (h : DnsHost T expectedHost) (hu : Genuine expectedHost u) :
    ∃ code, IsCode code ∧ T.urlParse u = .ok {
      scheme := "https".toList
      authority := { username := [], password := [], host := some expectedHost.toList, port := none }
      path := .segments ["s".toList, code]
      query := none
      fragment := none } := by
  obtain ⟨scheme, host, code, htext, hscheme, hhost, hcode⟩ := hu
  refine ⟨code, hcode, hurl.ok_of_parse ?_⟩
  have hschemeAlpha : ∀ c ∈ scheme, c.isAlpha = true := by
    apply isAlpha_of_lower
    rw [hscheme]
    exact forall_mem_of_all (by decide)
  have hhostPlain : ∀ c ∈ host, c.toNat < 0x80 ∧ isPlainChar c = true := by
    intro c hc
    have hmem : c.toLower ∈ expectedHost.toList := hhost ▸ List.mem_map_of_mem hc
    have hplain := (h.chars _ hmem).1
    have hascii : c.toNat < 0x80 := ascii_of_toLower (ascii_of_isPlainChar hplain)
    exact ⟨hascii, by rw [← (isPlainChar_toLower hascii).1, hplain]⟩
  have hparse : T.hostParser true host = some expectedHost.toList := by
    rw [← hurl.host_lower host fun c hc => (hhostPlain c hc).1, hhost, h.unchanged]
  have hne : scheme ≠ [] := by
    rintro rfl
    cases hscheme
  have hhostne : host ≠ [] := by
    rintro rfl
    exact h.nonempty hhost.symm
  have hsegs : ∀ s ∈ ["s".toList, code], ∀ c ∈ s, c.isAlphanum = true := by
    intro s hs c hc
    rcases List.mem_cons.1 hs with rfl | hs
    · exact forall_mem_of_all (P := fun c => c.isAlphanum = true) (by decide) c hc
    · cases List.mem_singleton.1 hs
      exact hcode.2 c hc
  have hplain := parse_plain hne hschemeAlpha (by rw [hscheme]; decide) (by rw [hscheme]; decide) hhostne
    (fun c hc => (hhostPlain c hc).2) hparse hsegs
  have hpath : ["s".toList, code].flatMap ('/' :: ·) = "/s/".toList ++ code := by simp
  rw [hpath, hscheme, ← List.append_assoc] at hplain
  rw [htext]
  exact hplain

end

section

variable (T : Crates)

/-- The link of a successful answer is accepted iff it parses to a URL with the scheme, the host and the path of a
short link, whatever its other parts; in particular every genuine link is accepted and returned unchanged. -/
theorem parseShortenResponse_spec (hurl : T.UrlStandard) (expectedHost : String) (hhost : DnsHost T expectedHost)
    (status : StatusCode) (body : List UInt8) :
    (∀ u, parseShortenResponse T status body expectedHost = .ok u ↔
      status.isSuccess = true ∧ T.shortenResponseFromSlice body = .ok ⟨u⟩ ∧
        ∃ url host code, T.urlParse u = .ok url ∧ url.scheme = "https".toList ∧ url.hostText = some host ∧
          lower host = expectedHost.toList ∧ url.path.text = "/s/".toList ++ code ∧ IsCode code) ∧
    ∀ u, status.isSuccess = true → T.shortenResponseFromSlice body = .ok ⟨u⟩ → Genuine expectedHost u →
      parseShortenResponse T status body expectedHost = .ok u := by
  have hiff : ∀ u, parseShortenResponse T status body expectedHost = .ok u ↔
      status.isSuccess = true ∧ T.shortenResponseFromSlice body = .ok ⟨u⟩ ∧
        ∃ url host code, T.urlParse u = .ok url ∧ url.scheme = "https".toList ∧ url.hostText = some host ∧
          lower host = expectedHost.toList ∧ url.path.text = "/s/".toList ++ code ∧ IsCode code := by
    intro u
    rw [parseShortenResponse_eq_ok_iff, validateShortenedSessionUrl_eq_ok_iff, hhost.lower_eq]
  refine ⟨hiff, fun u hstatus hbody hgenuine => (hiff u).2 ⟨hstatus, hbody, ?_⟩⟩
  obtain ⟨code, hcode, hparse⟩ := parse_genuine hurl hhost hgenuine
  refine ⟨_, expectedHost.toList, code, hparse, rfl, ?_, hhost.lower_eq, by simp [Path.text], hcode⟩
  show (some expectedHost.toList).filter (· ≠ []) = some expectedHost.toList
  rw [Option.filter_some, if_pos (decide_eq_true hhost.nonempty)]

end

theorem dnsHost_api : DnsHost Crates.reference "api.cartridge.gg" where
  nonempty := by decide
  chars := forall_mem_of_all (by decide)
  unchanged := by decide

theorem parseShortenResponse_spec_api :
    parseShortenResponse Crates.reference ⟨200, by decide⟩
        (encode "\x7b\"url\":\"https://API.cartridge.gg/s/a1B2c3D4e5\"\x7d".toList) "api.cartridge.gg" =
      .ok "https://API.cartridge.gg/s/a1B2c3D4e5" := by
  apply (parseShortenResponse_spec Crates.reference Reference.urlStandard "api.cartridge.gg" dnsHost_api _ _).2
  · decide
  · decide +kernel
  · exact ⟨"https".toList, "API.cartridge.gg".toList, "a1B2c3D4e5".toList, rfl, by decide, by decide, rfl,
      forall_mem_of_all (by decide)⟩

/-- A link with a user name, a port, a query and a fragment is accepted and is not genuine. -/
theorem parseShortenResponse_user :
    ¬ ∀ u, parseShortenResponse Crates.reference ⟨200, by decide⟩
        (encode "\x7b\"url\":\"https://user@api.cartridge.gg:8443/s/AbC123dEf9?x#y\"\x7d".toList) "api.cartridge.gg" = .ok u →
      Genuine "api.cartridge.gg" u := by
  intro h
  obtain ⟨scheme, host, code, htext, hscheme, hhost, hlen, _⟩ :=
    h "https://user@api.cartridge.gg:8443/s/AbC123dEf9?x#y" (by decide +kernel)
  -- genuine links for the host have 37 characters
  have hschemeLen : scheme.length = 5 := by simpa [lower] using congrArg List.length hscheme
  have hhostLen : host.length = 16 := by simpa [lower] using congrArg List.length hhost
  have htextLen := congrArg List.length htext
  simp only [List.length_append, hschemeLen, hhostLen, hlen] at htextLen
  exact absurd htextLen (by decide)

end ControllerUniffi
