import ControllerUniffi.Bindings.Cpp
import ControllerUniffi.Bindings.Kotlin
import ControllerUniffi.Bindings.Python

/-!
# One format for three languages

The library reads and writes one format, whatever language it is called from.  What any of the languages lowers is in
that format, and any of them lifts it to the same texts (`lift_of_lower`), with one exception: an error lowered by the
C++ binding is refused by the others, and undefined in C++ (`lift_of_lower_cpp_error`).  On other buffers the languages
differ, and Python is the strictest of them.

The text of an error is the string that the exception is made from; `messageOf_ofText` says what a program reads of it.
-/

namespace ControllerUniffi.Ffi

open Text Wire

inductive Language where
  | cpp
  | kotlin
  | python
  deriving DecidableEq, Repr

/-- What comes of lifting a buffer: a value, an exception or, in C++, undefined behaviour. -/
inductive Lifted (α : Type) where
  | value (a : α)
  | refused
  | undefined
  deriving DecidableEq, Repr

namespace Lifted

def ofExcept {ε α : Type} : Except ε α → Lifted α
  | .ok a => .value a
  | .error _ => .refused

def ofCpp {α : Type} : Cpp.Lifted α → Lifted α
  | .defined result _ => ofExcept result
  | .undefined => .undefined

theorem ofExcept_eq_value_iff {ε α : Type} {x : Except ε α} {a : α} : ofExcept x = .value a ↔ x = .ok a := by
  cases x <;> simp [ofExcept]

theorem ofExcept_eq_refused_iff {ε α : Type} {x : Except ε α} : (ofExcept x = .refused) ↔ ∀ a, x ≠ .ok a := by
  cases x <;> simp [ofExcept]

end Lifted

namespace Language

@[reducible] def Str : Language → Type
  | cpp => Bytes
  | kotlin => Kotlin.JString
  | python => Python.Str

/-- A text as a string of the language. -/
def ofText : (l : Language) → List Char → l.Str
  | cpp => encode
  | kotlin => encode16
  | python => Python.ofText

def lower (R : RustBufferApi) : (l : Language) → (t : Ty) → t.Val l.Str → Option RustBuffer
  | cpp, t, v => ((Cpp.ffiConverter t).lower R v).toOption
  | kotlin, t, v => ((Kotlin.ffiConverter t).lowerIntoRustBuffer R v).toOption
  | python, t, v => ((Python.ffiConverter t).lower R v).toOption

def lift : (l : Language) → (t : Ty) → RustBuffer → Lifted (t.Val l.Str)
  | cpp, t, buf => .ofCpp ((Cpp.ffiConverter t).lift buf)
  | kotlin, t, buf => .ofExcept ((Kotlin.ffiConverter t).liftFromRustBuffer buf)
  | python, t, buf => .ofExcept ((Python.ffiConverter t).lift buf)

def lowerString (R : RustBufferApi) : (l : Language) → l.Str → Option RustBuffer
  | cpp, s => (Cpp.FfiConverterString.lower R s).toOption
  | kotlin, s => (Kotlin.FfiConverterString.lower R s).toOption
  | python, s => (Python.FfiConverterString.lower R s).toOption

def liftString : (l : Language) → RustBuffer → Lifted l.Str
  | cpp, buf => .ofCpp (Cpp.FfiConverterString.lift buf)
  | kotlin, buf => .ofExcept (Kotlin.FfiConverterString.lift buf)
  | python, buf => .ofExcept (Python.FfiConverterString.lift buf)

/-- What a program reads of an error: `what()` in C++, `v1` in Kotlin, the first value in Python. -/
def messageOf : (l : Language) → ControllerError l.Str → l.Str
  | cpp, e => Cpp.what e
  | kotlin, e => e.message
  | python, e => e.message

/-- Of the text of an error C++ shows what is before the first U+0000, the others all. -/
theorem messageOf_ofText (l : Language) (kind : ErrorKind) (text : List Char) :
    l.messageOf ⟨kind, l.ofText text⟩ =
      l.ofText (if l = .cpp then text.takeWhile fun c => decide (c ≠ '\x00') else text) := by
  cases l with
  | cpp => exact takeWhile_encode text
  | kotlin => rfl
  | python => rfl

end Language

theorem toOption_eq_some_iff {ε α : Type} {x : Except ε α} {a : α} : x.toOption = some a ↔ x = .ok a := by
  cases x with
  | error e => simp [Except.toOption]
  | ok b => simp [Except.toOption]

/-- The texts of a value determine its strings in Python. -/
private theorem encode_of_ofText {t : Ty} {a b : t.Val (List Char)} (h : t.map Python.ofText a = t.map Python.ofText b) :
    t.map encode a = t.map encode b := by
  have hmap : ∀ c : t.Val (List Char),
      t.map encode c = t.map (fun s => ((Python.encodeUtf8 s).toOption.getD [])) (t.map Python.ofText c) := by
    intro c
    refine Ty.eq_map_of_rel (R := fun s b => Python.encodeUtf8 s = .ok b) ?_ ?_
    · intro s b hsb
      rw [hsb]
      rfl
    · exact Ty.rel_map (R := fun s b => Python.encodeUtf8 s = .ok b)
        (fun text => Python.encodeUtf8_eq_ok_iff.mpr ⟨text, rfl, rfl⟩) t c
  rw [hmap a, hmap b, h]

/-- A value with short lengths is lowered in any language, in Kotlin if the block for it is not too large. -/
theorem exists_lower (R : RustBufferApi) {l : Language} {t : Ty} {a : t.Val (List Char)}
    (ht : l = .cpp → t ≠ .controllerError) (hfits : t.Fits (t.map encode a))
    (hblock : l = .kotlin → Short (R.alloc ((Kotlin.ffiConverter t).allocationSize (t.map encode16 a))).capacity) :
    ∃ buf, l.lower R t (t.map l.ofText a) = some buf := by
  cases l with
  | cpp =>
    obtain ⟨buf, hbuf, -⟩ := Cpp.lower_bytes R (ht rfl) (t.map encode a)
    exact ⟨buf, toOption_eq_some_iff.mpr hbuf⟩
  | kotlin =>
    obtain ⟨buf, hbuf, -⟩ := Kotlin.lower_bytes R a (hblock rfl)
    exact ⟨buf, toOption_eq_some_iff.mpr hbuf⟩
  | python =>
    obtain ⟨buf, hbuf, -⟩ := Python.lower_bytes R hfits
    exact ⟨buf, toOption_eq_some_iff.mpr hbuf⟩

/-- What is lowered is in the format, in any language. -/
theorem bytes_of_lower {R : RustBufferApi} {l : Language} {t : Ty} {a : t.Val (List Char)} {buf : RustBuffer}
    (ht : l = .cpp → t ≠ .controllerError) (h : l.lower R t (t.map l.ofText a) = some buf) :
    buf.bytes = wire t (t.map encode a) := by
  cases l with
  | cpp =>
    have hlower : (Cpp.ffiConverter t).lower R (t.map encode a) = .ok buf := toOption_eq_some_iff.mp h
    have hbytes := Collect.of_eq_ok hlower (Cpp.lower_bytes R (ht rfl) (t.map encode a))
    exact hbytes
  | kotlin =>
    have hlower : (Kotlin.ffiConverter t).lowerIntoRustBuffer R (t.map encode16 a) = .ok buf :=
      toOption_eq_some_iff.mp h
    obtain ⟨-, hsize⟩ := Kotlin.text_of_lower hlower
    have hbytes := (Collect.of_eq_ok hlower (Kotlin.lower_bytes R a hsize)).1
    exact hbytes
  | python =>
    have hlower := toOption_eq_some_iff.mp h
    obtain ⟨b, hb, hall⟩ := Python.text_of_lower hlower
    rw [hb] at hlower
    have hbytes := (Collect.of_eq_ok hlower (Python.lower_bytes R (Ty.all_map.mpr hall))).1
    rw [hbytes, encode_of_ofText hb]

theorem lift_cpp_of_defined {t : Ty} {buf : RustBuffer} {v : t.Val Bytes}
    (h : (Cpp.ffiConverter t).lift buf = .defined (.ok v) true) : Language.cpp.lift t buf = .value v :=
  congrArg Lifted.ofCpp h

/-- What is in the format is lifted to its texts, in any language. -/
theorem lift_of_bytes {t : Ty} {a : t.Val (List Char)} {buf : RustBuffer} (h : buf.bytes = wire t (t.map encode a))
    (hshort : Short buf.bytes.length) (l : Language) : l.lift t buf = .value (t.map l.ofText a) := by
  have hfits : t.Fits (t.map encode a) := fits_of_wire (by rwa [h] at hshort)
  cases l with
  | cpp =>
    have hnil : buf.bytes = wire t (t.map encode a) ++ [] := by rw [h, List.append_nil]
    exact lift_cpp_of_defined (Cpp.lift_wire hfits hnil)
  | kotlin =>
    have hback : t.map Kotlin.FfiConverterString.ofUtf8 (t.map encode a) = t.map encode16 a := by
      symm
      refine Ty.eq_map_of_rel (R := fun b s => s = Kotlin.FfiConverterString.ofUtf8 b) (fun _ _ h => h) ?_
      refine Ty.rel_map (R := fun b s => s = Kotlin.FfiConverterString.ofUtf8 b) (fun text => ?_) t a
      rw [Kotlin.FfiConverterString.ofUtf8, decode_encode]
    have hlift := Kotlin.lift_wire h hshort
    rw [hback] at hlift
    exact Lifted.ofExcept_eq_value_iff.mpr hlift
  | python =>
    refine Lifted.ofExcept_eq_value_iff.mpr (Python.lift_wire hfits ?_ h)
    exact Ty.rel_map (R := fun b s => Python.decodeUtf8 b = .ok s)
      (fun text => Python.decodeUtf8_eq_ok_iff.mpr ⟨text, rfl, rfl⟩) t a

/-- What one language lowers, every language lifts to the same texts. -/
theorem lift_of_lower {R : RustBufferApi} {l : Language} {t : Ty} {a : t.Val (List Char)} {buf : RustBuffer}
    (ht : l = .cpp → t ≠ .controllerError) (h : l.lower R t (t.map l.ofText a) = some buf)
    (hshort : Short buf.bytes.length) (l' : Language) : l'.lift t buf = .value (t.map l'.ofText a) :=
  lift_of_bytes (bytes_of_lower ht h) hshort l'

private theorem short_wire_hi : Short (wire .optionalString (some (encode ['h', 'i']))).length := by
  rw [wire_length]
  change 7 < 2 ^ 31
  omega

/-- A string that Python lowers, in C++. -/
theorem lift_of_lower_hi : ∃ buf,
    Language.python.lower .vec .optionalString (some (Python.ofText ['h', 'i'])) = some buf ∧
      Language.cpp.lift .optionalString buf = .value (some (encode ['h', 'i'])) := by
  obtain ⟨buf, hbuf, hbytes, -⟩ :=
    Python.lower_bytes .vec (t := .optionalString) (a := some ['h', 'i']) (fits_of_wire short_wire_hi)
  have hlower : Language.python.lower .vec .optionalString (some (Python.ofText ['h', 'i'])) = some buf :=
    toOption_eq_some_iff.mpr hbuf
  have hshort : Short buf.bytes.length := by
    rw [hbytes]
    exact short_wire_hi
  exact ⟨buf, hlower, lift_of_lower (l := .python) (t := .optionalString) (a := some ['h', 'i']) nofun hlower hshort .cpp⟩

/-- A buffer that Python accepts is accepted by all, with the same texts. -/
theorem lift_of_python {t : Ty} {buf : RustBuffer} {v : t.Val Python.Str} (h : (Python.ffiConverter t).lift buf = .ok v)
    (hshort : Short buf.bytes.length) :
    ∃ a : t.Val (List Char), ∀ l : Language, l.lift t buf = .value (t.map l.ofText a) := by
  obtain ⟨c, hbytes, -, hrel⟩ := Python.wire_of_lift h
  have hall : t.All (fun b => ∃ text, b = encode text ∧ True) (fun _ => True) c := by
    refine Ty.all_of_rel ?_ hrel
    intro b s hbs
    obtain ⟨text, rfl, -⟩ := Python.decodeUtf8_eq_ok_iff.mp hbs
    exact ⟨text, rfl, trivial⟩
  obtain ⟨a, rfl, -⟩ := Ty.exists_map hall
  exact ⟨a, lift_of_bytes hbytes hshort⟩

theorem lift_of_python_hi : ∃ buf : RustBuffer, buf.bytes = wire .optionalString (some (encode ['h', 'i'])) ∧
    ∃ a : Option (List Char), ∀ l : Language, l.lift .optionalString buf = .value (a.map l.ofText) := by
  have hbytes : (⟨wire .optionalString (some (encode ['h', 'i'])), 7⟩ : RustBuffer).bytes =
      wire .optionalString (some (encode ['h', 'i'])) :=
    List.take_of_length_le (by rw [wire_length]; exact Nat.le_refl 7)
  have hlift := Python.lift_wire (t := .optionalString) (v := some (Python.ofText ['h', 'i'])) (fits_of_wire short_wire_hi)
    (.some (Python.decodeUtf8_eq_ok_iff.mpr ⟨_, rfl, rfl⟩)) hbytes
  exact ⟨_, hbytes, lift_of_python (t := .optionalString) hlift (by rw [hbytes]; exact short_wire_hi)⟩

/-- On a buffer with something behind the value C++ returns the value and the others refuse. -/
theorem lift_of_junk {t : Ty} {a : t.Val (List Char)} {buf : RustBuffer} {junk : Bytes} (hjunk : junk ≠ [])
    (h : buf.bytes = wire t (t.map encode a) ++ junk) (hshort : Short buf.bytes.length) (l : Language) :
    l.lift t buf = if l = .cpp then .value (t.map l.ofText a) else .refused := by
  have hfits : t.Fits (t.map encode a) := by
    refine fits_of_wire ?_
    rw [h, List.length_append] at hshort
    unfold Short at *
    omega
  cases l with
  | cpp => exact lift_cpp_of_defined (Cpp.lift_wire hfits h)
  | kotlin =>
    refine Lifted.ofExcept_eq_refused_iff.mpr fun v hv => ?_
    rw [Kotlin.lift_junk hjunk h hshort] at hv
    cases hv
  | python =>
    have hrel := Ty.rel_map (R := fun b s => Python.decodeUtf8 b = .ok s)
      (fun text => Python.decodeUtf8_eq_ok_iff.mpr ⟨text, rfl, rfl⟩) t a
    refine Lifted.ofExcept_eq_refused_iff.mpr fun v hv => ?_
    rw [Python.lift_junk hfits hrel hjunk h] at hv
    cases hv

/-- The same string with a byte behind it. -/
theorem lift_of_junk_hi : ∃ buf : RustBuffer,
    buf.bytes = wire .optionalString (some (encode ['h', 'i'])) ++ [7] ∧
      Language.cpp.lift .optionalString buf = .value (some (encode ['h', 'i'])) ∧
      Language.kotlin.lift .optionalString buf = .refused := by
  have hlength : (wire .optionalString (some (encode ['h', 'i'])) ++ [7]).length = 8 := by
    rw [List.length_append, wire_length]
    rfl
  have hbytes : (⟨wire .optionalString (some (encode ['h', 'i'])) ++ [7], 8⟩ : RustBuffer).bytes =
      wire .optionalString (some (encode ['h', 'i'])) ++ [7] := List.take_of_length_le (Nat.le_of_eq hlength)
  have hshort : Short (⟨wire .optionalString (some (encode ['h', 'i'])) ++ [7], 8⟩ : RustBuffer).bytes.length := by
    rw [hbytes, hlength]
    change 8 < 2 ^ 31
    omega
  exact ⟨_, hbytes, lift_of_junk (t := .optionalString) (a := some ['h', 'i']) (by decide) hbytes hshort .cpp,
    lift_of_junk (t := .optionalString) (a := some ['h', 'i']) (by decide) hbytes hshort .kotlin⟩

/-! ### Errors from C++ -/

/-- An error that C++ lowers is refused by Kotlin and Python, and lifting it in C++ is undefined. -/
theorem lift_of_lower_cpp_error {R : RustBufferApi} {e : ControllerError Bytes} {buf : RustBuffer}
    (h : Cpp.FfiConverterControllerError.lower R e = .ok buf) (l : Language) :
    l.lift .controllerError buf = if l = .cpp then .undefined else .refused := by
  have hbytes := Collect.of_eq_ok h (Cpp.lower_controllerError R e)
  cases l with
  | cpp => exact congrArg Lifted.ofCpp (Cpp.lift_lower_controllerError R e h)
  | kotlin =>
    have hlift := Kotlin.lift_kind hbytes
    refine Lifted.ofExcept_eq_refused_iff.mpr fun v hv => ?_
    change Kotlin.FfiConverterTypeControllerError.liftFromRustBuffer buf = .ok v at hv
    rw [hlift] at hv
    cases hv
  | python =>
    refine Lifted.ofExcept_eq_refused_iff.mpr fun v hv => ?_
    obtain ⟨c, hc, -⟩ := Python.wire_of_lift hv
    have hlength : buf.bytes.length = 4 := by rw [hbytes, int32_length]
    rw [hc] at hlength
    change (int32 c.kind.index ++ (int32 c.message.length ++ c.message)).length = 4 at hlength
    rw [List.length_append, List.length_append, int32_length, int32_length] at hlength
    omega

theorem lift_of_lower_cpp_networkError : ∃ buf,
    Cpp.FfiConverterControllerError.lower .vec ⟨.networkError, [104]⟩ = .ok buf ∧
      Language.cpp.lift .controllerError buf = .undefined ∧ Language.kotlin.lift .controllerError buf = .refused := by
  obtain ⟨buf, hbuf, -⟩ := Cpp.lower_controllerError .vec ⟨.networkError, [104]⟩
  exact ⟨buf, hbuf, lift_of_lower_cpp_error hbuf .cpp, lift_of_lower_cpp_error hbuf .kotlin⟩

/-! ### Versions -/

/-- A version passes from C++ to Python and back; Kotlin does not have versions. -/
theorem version_of_lower {R : RustBufferApi} {v : Version} {buf : RustBuffer} :
    (Cpp.FfiConverterVersion.lower R v = .ok buf → Python.FfiConverterTypeVersion.lift buf = .ok v) ∧
      (Python.FfiConverterTypeVersion.lower R v = .ok buf →
        Cpp.FfiConverterVersion.lift buf = .defined (.ok v) true) := by
  constructor
  · intro h
    have hbytes := Collect.of_eq_ok h (Cpp.lower_version R v)
    exact Python.lift_version v hbytes
  · intro h
    have hbytes := Collect.of_eq_ok h (Python.lower_version R v)
    exact Cpp.lift_version v hbytes

/-! ### Strings alone -/

/-- The UTF-8 of a text is lifted to it as a string alone, in any language. -/
theorem liftString_of_bytes {text : List Char} {buf : RustBuffer} (h : buf.bytes = encode text)
    (hlen : buf.len ≤ buf.capacity) (hshort : Short (encode text).length) (l : Language) :
    l.liftString buf = .value (l.ofText text) := by
  cases l with
  | cpp => exact congrArg Lifted.value h
  | kotlin =>
    have hlift := Kotlin.lift_string hlen (by rwa [← h, RustBuffer.bytes, List.length_take_of_le hlen] at hshort)
    rw [h, Kotlin.FfiConverterString.ofUtf8, decode_encode] at hlift
    unfold Language.liftString
    dsimp only
    rw [hlift]
    rfl
  | python => exact Lifted.ofExcept_eq_value_iff.mpr (Python.lift_string_eq_ok_iff.mpr ⟨text, h, rfl⟩)

/-- What one language lowers as a string alone, every language lifts to the same text. -/
theorem liftString_of_lowerString {R : RustBufferApi} {l : Language} {text : List Char} {buf : RustBuffer}
    (h : l.lowerString R (l.ofText text) = some buf) (hlen : buf.len ≤ buf.capacity) (hshort : Short (encode text).length)
    (l' : Language) : l'.liftString buf = .value (l'.ofText text) := by
  refine liftString_of_bytes ?_ hlen hshort l'
  cases l with
  | cpp =>
    have hlower : Cpp.FfiConverterString.lower R (encode text) = .ok buf := toOption_eq_some_iff.mp h
    have hbytes := Collect.of_eq_ok hlower (Cpp.lower_string R hshort)
    exact hbytes
  | kotlin =>
    have hlower : Kotlin.FfiConverterString.lower R (encode16 text) = .ok buf := toOption_eq_some_iff.mp h
    have hbytes := Collect.of_eq_ok hlower (Kotlin.lower_string R hshort)
    exact hbytes
  | python =>
    have hlower : Python.FfiConverterString.lower R (Python.ofText text) = .ok buf := toOption_eq_some_iff.mp h
    have hbytes := (Collect.of_eq_ok hlower (Python.lower_string R text)).1
    exact hbytes

end ControllerUniffi.Ffi
