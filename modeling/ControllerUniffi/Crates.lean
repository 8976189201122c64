import ControllerUniffi.Felt
import ControllerUniffi.Text.Json
import ControllerUniffi.Url.Plain
import ControllerUniffi.Url.Query

/-!
# Third-party crates

The functions of other crates that the code calls, as one record, and what their documentation says about them, as
properties of such a record.  The fallible ones return the text of their error.  `Crates.reference` is a record that
has all the documented properties.
-/

namespace ControllerUniffi

open Text Whatwg

/-- An HTTP status code. -/
structure StatusCode where
  code : Nat
  three_digits : 100 ≤ code ∧ code < 1000
  deriving DecidableEq, Repr

def StatusCode.isSuccess (status : StatusCode) : Bool := 200 ≤ status.code ∧ status.code < 300

/-- The answer of the URL shortener. -/
structure ShortenResponse where
  url : String
  deriving DecidableEq, Repr

structure Crates where
  /-- `Felt::from_hex` -/
  fromHex : String → Except String Felt
  /-- `starknet::core::utils::get_selector_from_name` -/
  getSelectorFromName : String → Except String Felt
  /-- `starknet::core::utils::cairo_short_string_to_felt` -/
  cairoShortStringToFelt : String → Except String Felt
  /-- `starknet::macros::short_string!` -/
  shortString : String → Felt
  /-- `starknet_crypto::get_public_key`, where it is defined -/
  getPublicKey : Felt → Option Felt
  /-- `serde_json::to_string` -/
  jsonToString : Json → Except String String
  /-- `serde_json::from_slice::<ShortenResponse>` -/
  shortenResponseFromSlice : List UInt8 → Except String ShortenResponse
  /-- The host parser inside `Url::parse`. -/
  hostParser : HostParser
  /-- `Url::parse` -/
  urlParse : String → Except String Url
  /-- The text of a status code. -/
  statusText : StatusCode → String

namespace Crates

variable (T : Crates)

/-- `from_hex` reads what `0x{:064x}` prints. -/
def ReadsPaddedHex : Prop := ∀ f, T.fromHex (feltPaddedHex f) = .ok f

/-- `from_hex` reads what `{:#x}` prints. -/
def ReadsLowerHex : Prop := ∀ f, T.fromHex (feltLowerHex f) = .ok f

/-- `get_selector_from_name` fails exactly on names with a character that is not ASCII. -/
def SelectorsOfAscii : Prop :=
  ∀ name, (∃ f, T.getSelectorFromName name = .ok f) ↔ ∀ c ∈ name.toList, c.toNat < 0x80

/-- `serde_json` writes compact JSON and never fails on strings, lists and records. -/
def WritesJson : Prop := ∀ v, T.jsonToString v = .ok (String.ofList (Json.write v))

/-- `Url::parse` is the parser of the URL Standard, whose host parser keeps the delimiters of a URL out of hosts and
does not see the letter case of an ASCII domain. -/
structure UrlStandard : Prop where
  parse_eq : ∀ s, (T.urlParse s).toOption = Whatwg.parse T.hostParser s.toList
  host_clean : T.hostParser.Clean
  host_lower : ∀ text : List Char, (∀ c ∈ text, c.toNat < 0x80) →
    T.hostParser true (lower text) = T.hostParser true text

variable {T}

theorem UrlStandard.parse_of_ok (h : T.UrlStandard) {s : String} {u : Url} (hu : T.urlParse s = .ok u) :
    Whatwg.parse T.hostParser s.toList = some u := by
  rw [← h.parse_eq, hu]
  rfl

theorem UrlStandard.ok_of_parse (h : T.UrlStandard) {s : String} {u : Url}
    (hu : Whatwg.parse T.hostParser s.toList = some u) : T.urlParse s = .ok u := by
  have heq := h.parse_eq s
  rw [hu] at heq
  cases hs : T.urlParse s with
  | error e => rw [hs] at heq; cases heq
  | ok v => rw [hs] at heq; cases heq; rfl

theorem UrlStandard.wf (h : T.UrlStandard) {s : String} {u : Url} (hu : T.urlParse s = .ok u) : u.Wf :=
  parse_wf h.host_clean (h.parse_of_ok hu)

end Crates

/-! ### A record with the documented properties -/

namespace Reference

/-- Up to 64 digits, behind an optional `0x`. -/
def fromHex (s : String) : Except String Felt :=
  let digits := match s.toList with
    | '0' :: 'x' :: d :: ds => d :: ds
    | ds => ds
  match hexValue digits with
  | some n => if digits.length ≤ 64 then .ok (Fin.ofNat feltPrime n) else .error "failed to create Felt from string"
  | none => .error "failed to create Felt from string"

/-- The selectors of two well-known entrypoints; other ASCII names stand for themselves as short strings. -/
def getSelectorFromName (name : String) : Except String Felt :=
  if name = "transfer" then .ok 0x83afd3f4caedc6eebf44246fe54e38c95e3179a5ec9ea81740eca5b482d12e
  else if name = "approve" then .ok 0x219209e083275171774dab1df80982e9df2096516f06319c5c6d71ae0a8480c
  else if name.toList.all (·.toNat < 0x80) then .ok (Fin.ofNat feltPrime (name.toList.foldl (256 * · + ·.toNat) 0))
  else .error "the provided name is not ASCII"

def shortString (s : String) : Felt := Fin.ofNat feltPrime (s.toList.foldl (256 * · + ·.toNat) 0)

def cairoShortStringToFelt (s : String) : Except String Felt :=
  if s.toList.all (·.toNat < 0x80) then
    if s.toList.length ≤ 31 then .ok (shortString s) else .error "string exceeds maximum length of 31 characters"
  else .error "string contains non-ASCII character"

/-- The generator of the curve is the public key of 1; 0 has none. -/
def getPublicKey (key : Felt) : Option Felt :=
  if key = 1 then some 0x1ef15c18599971b7beced415a40f0c7deacfd9b0d1819e03d723d8bc943cfca else none

def shortenResponseFromSlice (bytes : List UInt8) : Except String ShortenResponse :=
  match Json.parse (decode bytes) with
  | some (.obj [(key, .str url)]) =>
    if key = "url".toList then .ok { url := String.ofList url } else .error "missing field"
  | _ => .error "expected value"

/-- Domains of letters, digits, dots and hyphens, lowercased; hosts of other schemes as they are. -/
def hostParser (special : Bool) (text : List Char) : Option (List Char) :=
  if text.all isPlainChar then
    if special then (if text = [] then none else some (lower text)) else some text
  else none

def urlParse (s : String) : Except String Url :=
  match Whatwg.parse hostParser s.toList with
  | some u => .ok u
  | none => .error "invalid URL"

end Reference

def Crates.reference : Crates where
  fromHex := Reference.fromHex
  getSelectorFromName := Reference.getSelectorFromName
  cairoShortStringToFelt := Reference.cairoShortStringToFelt
  shortString := Reference.shortString
  getPublicKey := Reference.getPublicKey
  jsonToString v := .ok (String.ofList (Json.write v))
  shortenResponseFromSlice := Reference.shortenResponseFromSlice
  hostParser := Reference.hostParser
  urlParse := Reference.urlParse
  statusText status := String.ofList (Nat.toDigits 10 status.code)

namespace Reference

private theorem fromHex_digits {f : Felt} {ds : List Char} (hne : ds ≠ []) (hval : hexValue ds = some f.val)
    (hlen : ds.length ≤ 64) : fromHex (String.ofList ('0' :: 'x' :: ds)) = .ok f := by
  have hf : Fin.ofNat feltPrime f.val = f := Fin.ext (Nat.mod_eq_of_lt f.isLt)
  cases ds with
  | nil => exact absurd rfl hne
  | cons d ds => simp only [fromHex, String.toList_ofList, hval, hlen, ↓reduceIte, hf]

theorem readsPaddedHex : Crates.reference.ReadsPaddedHex := by
  intro f
  have hlen : (paddedHex 64 f.val).length = 64 := length_paddedHex (by decide) (felt_lt_pow f)
  have hne : paddedHex 64 f.val ≠ [] := by
    intro h
    simp [h] at hlen
  exact fromHex_digits hne (hexValue_paddedHex 64 f.val) (Nat.le_of_eq hlen)

theorem readsLowerHex : Crates.reference.ReadsLowerHex := by
  intro f
  have hne : lowerHex f.val ≠ [] := Nat.toDigits_ne_nil
  exact fromHex_digits hne (hexValue_lowerHex f.val) (length_lowerHex_le (by decide) (felt_lt_pow f))

theorem selectorsOfAscii : Crates.reference.SelectorsOfAscii := by
  intro name
  show (∃ f, getSelectorFromName name = .ok f) ↔ _
  unfold getSelectorFromName
  by_cases ht : name = "transfer"
  · subst ht
    simp only [↓reduceIte]
    exact ⟨fun _ => forall_mem_of_all (by decide), fun _ => ⟨_, rfl⟩⟩
  by_cases ha : name = "approve"
  · subst ha
    simp only [ht, ↓reduceIte]
    exact ⟨fun _ => forall_mem_of_all (by decide), fun _ => ⟨_, rfl⟩⟩
  simp only [ht, ha, ↓reduceIte]
  by_cases hall : name.toList.all (·.toNat < 0x80) = true
  · simp only [hall, ↓reduceIte]
    exact ⟨fun _ => by simpa using hall, fun _ => ⟨_, rfl⟩⟩
  · simp only [hall, Bool.false_eq_true, ↓reduceIte]
    constructor
    · rintro ⟨f, hf⟩
      cases hf
    · intro h
      exact absurd (by simpa using h) hall

theorem writesJson : Crates.reference.WritesJson := fun _ => rfl

private theorem clean_of_isPlainChar {s : List Char} (h : ∀ c ∈ s, isPlainChar c = true) : Clean s := by
  intro c hc
  have := h c hc
  constructor <;> (rintro rfl; exact absurd this (by decide))

theorem hostParser_clean : HostParser.Clean hostParser := by
  intro special text host h
  unfold hostParser at h
  split at h
  · rename_i hall
    have hchars : ∀ c ∈ text, isPlainChar c = true := by simpa using hall
    split at h
    · split at h
      · cases h
      · cases h
        apply clean_of_isPlainChar
        intro c hc
        obtain ⟨d, hd, rfl⟩ := List.mem_map.1 hc
        rw [(isPlainChar_toLower (ascii_of_isPlainChar (hchars d hd))).1]
        exact hchars d hd
    · cases h
      exact clean_of_isPlainChar hchars
  · cases h

theorem hostParser_lower {text : List Char} (h : ∀ c ∈ text, c.toNat < 0x80) :
    hostParser true (lower text) = hostParser true text := by
  have hall : (lower text).all isPlainChar = text.all isPlainChar := by
    rw [lower, List.all_map, Bool.eq_iff_iff, List.all_eq_true, List.all_eq_true]
    apply forall₂_congr
    intro c hc
    rw [Function.comp_apply, (isPlainChar_toLower (h c hc)).1]
  have hidem : lower (lower text) = lower text := by
    rw [lower, lower, List.map_map]
    apply List.map_congr_left
    intro c hc
    exact (isPlainChar_toLower (h c hc)).2
  have hnil : lower text = [] ↔ text = [] := List.map_eq_nil_iff
  simp only [hostParser, hall, hidem, hnil, ↓reduceIte]

theorem urlStandard : Crates.reference.UrlStandard where
  parse_eq s := by
    show (urlParse s).toOption = Whatwg.parse hostParser s.toList
    unfold urlParse
    cases Whatwg.parse hostParser s.toList <;> rfl
  host_clean := hostParser_clean
  host_lower _ h := hostParser_lower h

theorem hostParser_standard : HostParser.Standard hostParser where
  refuses special text _ := by
    rintro ⟨c, hc, hspace⟩
    have hall : text.all isPlainChar = false := by
      rw [List.all_eq_false]
      refine ⟨c, hc, fun hplain => ?_⟩
      rw [(isPlainChar_ne hplain).1] at hspace
      cases hspace
    rw [hostParser, hall]
    rfl
  opaque_host text host _ h := by
    unfold hostParser at h
    split at h
    · rename_i hall
      cases h
      have hset : ∀ c ∈ text, c0Set c = false := fun c hc =>
        forall_ascii (P := fun c => isPlainChar c = true → c0Set c = false) (by decide +kernel)
          (ascii_of_isPlainChar (List.all_eq_true.1 hall c hc)) (List.all_eq_true.1 hall c hc)
      rw [percentEncode_eq_self hset]
    · cases h

end Reference

end ControllerUniffi
