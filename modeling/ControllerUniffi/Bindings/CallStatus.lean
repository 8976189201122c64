import ControllerUniffi.Bindings.Transport
import ControllerUniffi.ControllerAccount

/-!
# Calls of the library

A call fills in a status: success, an error in a buffer, or a panic with its message.  The bindings look at the status
before they look at what was returned.  With what the library does on its side (`Scaffolds`), a method called in any
language gives the outcome that it has in the library, in the strings of the language (`invoke_agrees`).  `scaffold` is
a library that does so for every method with short results, `execute` among them.
-/

namespace ControllerUniffi.Ffi

open Text Wire

structure RustCallStatus where
  code : Int8
  errorBuf : RustBuffer
  deriving DecidableEq, Repr

/-- How a call ends that does not return: it throws an error of the interface, an error of the bindings or whatever a
converter throws, or its behaviour is undefined. -/
inductive Raised (S : Type) where
  | controllerError (e : ControllerError S)
  | internal (message : S)
  | converter
  | undefined
  deriving DecidableEq, Repr

/-- Throw what was lifted. -/
def Lifted.raise {S α : Type} (thrown : α → Raised S) : Lifted α → Raised S
  | .value a => thrown a
  | .refused => .converter
  | .undefined => .undefined

/-- The check of a status.  The bindings differ in their converters and texts: for an error where none is expected,
for a panic without a message, for any other status. -/
def checkStatus {S : Type} (liftError : RustBuffer → Lifted (ControllerError S)) (liftMessage : RustBuffer → Lifted S)
    (unexpected panic : S) (unknown : RustCallStatus → S) (errorHandler : Bool) (status : RustCallStatus) :
    Except (Raised S) Unit :=
  if status.code = 0 then .ok ()
  else if status.code = 1 then
    if errorHandler then .error ((liftError status.errorBuf).raise .controllerError)
    else .error (.internal unexpected)
  else if status.code = 2 then
    if status.errorBuf.len > 0 then .error ((liftMessage status.errorBuf).raise .internal)
    else .error (.internal panic)
  else .error (.internal (unknown status))

/-- `check_rust_call`, with the converter of the errors or with `nullptr`. -/
def Cpp.checkRustCall : Bool → RustCallStatus → Except (Raised Bytes) Unit :=
  checkStatus (fun buf => .ofCpp (FfiConverterControllerError.lift buf))
    (fun buf => .ofCpp (FfiConverterString.lift buf))
    (encode "Unexpected Rust call status".toList) (encode "A Rust panic has occurred".toList)
    fun _ => encode "Unexpected Rust call status".toList

/-- `uniffiCheckCallStatus`; the last text was meant to name the code and names the status, which `describe` is the
`toString` of. -/
def Kotlin.uniffiCheckCallStatus (describe : RustCallStatus → JString) :
    Bool → RustCallStatus → Except (Raised JString) Unit :=
  checkStatus (fun buf => .ofExcept (FfiConverterTypeControllerError.liftFromRustBuffer buf))
    (fun buf => .ofExcept (FfiConverterString.lift buf)) (encode16 "Unexpected CALL_ERROR".toList)
    (encode16 "Rust panic".toList)
    fun status => encode16 "Unknown rust call status: ".toList ++ describe status ++ encode16 ".code".toList

/-- `_uniffi_check_call_status` -/
def Python.uniffiCheckCallStatus : Bool → RustCallStatus → Except (Raised Str) Unit :=
  checkStatus (fun buf => .ofExcept (FfiConverterTypeControllerError.lift buf))
    (fun buf => .ofExcept (FfiConverterString.lift buf))
    (ofText "_uniffi_rust_call_with_error: CALL_ERROR, but error_ffi_converter is None".toList)
    (ofText "Unknown rust panic".toList)
    fun status => ofText ("Invalid _UniffiRustCallStatus code: " ++ toString status.code.toInt).toList

section

variable {S : Type} {liftError : RustBuffer → Lifted (ControllerError S)} {liftMessage : RustBuffer → Lifted S}
  {unexpected panic : S} {unknown : RustCallStatus → S} {errorHandler : Bool} {status : RustCallStatus}

theorem checkStatus_eq_ok_iff :
    checkStatus liftError liftMessage unexpected panic unknown errorHandler status = .ok () ↔ status.code = 0 := by
  unfold checkStatus
  by_cases hcode : status.code = 0
  · simp [hcode]
  · simp only [hcode, ↓reduceIte, iff_false]
    intro h
    split at h
    · split at h <;> cases h
    · split at h
      · split at h <;> cases h
      · cases h

theorem checkStatus_of_error {e : ControllerError S} (hcode : status.code = 1)
    (hlift : liftError status.errorBuf = .value e) :
    checkStatus liftError liftMessage unexpected panic unknown true status = .error (.controllerError e) := by
  have hne : ¬ (1 : Int8) = 0 := by decide
  rw [checkStatus, hcode, if_neg hne, if_pos rfl, if_pos rfl, hlift]
  rfl

theorem checkStatus_of_panic (hcode : status.code = 2) :
    (∀ message, status.errorBuf.len > 0 → liftMessage status.errorBuf = .value message →
      checkStatus liftError liftMessage unexpected panic unknown errorHandler status = .error (.internal message)) ∧
    (status.errorBuf.len = 0 →
      checkStatus liftError liftMessage unexpected panic unknown errorHandler status = .error (.internal panic)) := by
  have hne : ¬ (2 : Int8) = 0 := by decide
  have hne' : ¬ (2 : Int8) = 1 := by decide
  refine ⟨?_, ?_⟩
  · intro message hlen hlift
    rw [checkStatus, hcode, if_neg hne, if_neg hne', if_pos rfl, if_pos hlen, hlift]
    rfl
  · intro hlen
    rw [checkStatus, hcode, if_neg hne, if_neg hne', if_pos rfl, if_neg (by omega)]

end

/-! ### The side of the library -/

/-- The class of an error of the library. -/
def kindOf : ControllerUniffi.ControllerError → ErrorKind
  | .initializationError _ => .initializationError
  | .signupError _ => .signupError
  | .executionError _ => .executionError
  | .networkError _ => .networkError
  | .storageError _ => .storageError
  | .invalidInput _ => .invalidInput
  | .disconnectError _ => .disconnectError

/-- A buffer of the library with the given bytes, small enough for every language. -/
structure Carries (buf : RustBuffer) (bytes : Bytes) : Prop where
  bytes_eq : buf.bytes = bytes
  len_le : buf.len ≤ buf.capacity
  short : Short bytes.length

/-- What the library returns and reports of an outcome: the text of an error is what it displays. -/
def Reports (outcome : Outcome (List Char)) (ret : RustBuffer) (status : RustCallStatus) : Prop :=
  match outcome with
  | .ok text => status.code = 0 ∧ Carries ret (encode text)
  | .err e => status.code = 1 ∧
      Carries status.errorBuf (wire .controllerError (⟨kindOf e, encode e.display.toList⟩ : ControllerError Bytes))
  | .panicked => status.code = 2 ∧ ∃ message, Carries status.errorBuf (encode message)

/-- `f` is the scaffolding of a method: it reads an argument with short lengths in the format and reports the outcome. -/
def Scaffolds (t : Ty) (method : t.Val (List Char) → Outcome (List Char))
    (f : RustBuffer → RustBuffer × RustCallStatus) : Prop :=
  ∀ a arg, t.Fits (t.map encode a) → arg.bytes = wire t (t.map encode a) → Reports (method a) (f arg).1 (f arg).2

/-! ### Calls -/

variable (describe : RustCallStatus → Kotlin.JString)

namespace Language

/-- The check of the status of a method that may fail. -/
def check : (l : Language) → RustCallStatus → Except (Raised l.Str) Unit
  | cpp => Cpp.checkRustCall true
  | kotlin => Kotlin.uniffiCheckCallStatus describe true
  | python => Python.uniffiCheckCallStatus true

/-- A method that takes a value and returns a string, such as `execute`. -/
def invoke (R : RustBufferApi) (l : Language) {t : Ty} (f : RustBuffer → RustBuffer × RustCallStatus) (v : t.Val l.Str) :
    Except (Raised l.Str) l.Str :=
  match l.lower R t v with
  | none => .error .converter
  | some arg =>
    match l.check describe (f arg).2 with
    | .error e => .error e
    | .ok () =>
      match l.liftString (f arg).1 with
      | .value s => .ok s
      | .refused => .error .converter
      | .undefined => .error .undefined

end Language

/-- The outcome as it comes out in a language.  An error is made from the text that the library displays, and a program
reads this text of it, in C++ up to the first U+0000.  Of a panic only that it is one. -/
def Agrees (l : Language) (outcome : Outcome (List Char)) (result : Except (Raised l.Str) l.Str) : Prop :=
  match outcome with
  | .ok text => result = .ok (l.ofText text)
  | .err e => ∃ thrown, result = .error (.controllerError thrown) ∧
      thrown = ⟨kindOf e, l.ofText e.display.toList⟩ ∧
      l.messageOf thrown =
        l.ofText (if l = .cpp then e.display.toList.takeWhile fun c => decide (c ≠ '\x00') else e.display.toList)
  | .panicked => ∃ message, result = .error (.internal message)

private theorem check_eq (l : Language) : ∃ unexpected panic unknown,
    l.check describe = checkStatus (l.lift .controllerError) l.liftString unexpected panic unknown true := by
  cases l <;> exact ⟨_, _, _, rfl⟩

/-- In every language a call returns exactly when the library reports success. -/
theorem check_eq_ok_iff (l : Language) (status : RustCallStatus) :
    l.check describe status = .ok () ↔ status.code = 0 := by
  obtain ⟨unexpected, panic, unknown, heq⟩ := check_eq describe l
  rw [heq]
  exact checkStatus_eq_ok_iff

/-- An error of the library is thrown with its class and with what it displays. -/
theorem check_of_err {e : ControllerUniffi.ControllerError} {status : RustCallStatus} (hcode : status.code = 1)
    (hbuf : Carries status.errorBuf (wire .controllerError (⟨kindOf e, encode e.display.toList⟩ : ControllerError Bytes)))
    (l : Language) :
    l.check describe status = .error (.controllerError ⟨kindOf e, l.ofText e.display.toList⟩) := by
  obtain ⟨hbytes, -, hshort⟩ := hbuf
  have hlift := lift_of_bytes (t := .controllerError) (a := ⟨kindOf e, e.display.toList⟩) hbytes (by rwa [hbytes]) l
  obtain ⟨unexpected, panic, unknown, heq⟩ := check_eq describe l
  rw [heq]
  exact checkStatus_of_error hcode hlift

/-- A panic is thrown as an error of the bindings, with its message where there is one. -/
theorem check_of_panicked {message : List Char} {status : RustCallStatus} (hcode : status.code = 2)
    (hbuf : Carries status.errorBuf (encode message)) (l : Language) :
    ∃ s, l.check describe status = .error (.internal s) ∧ (message ≠ [] → s = l.ofText message) := by
  have hlen : status.errorBuf.len = (encode message).length := by
    rw [← hbuf.bytes_eq, RustBuffer.bytes, List.length_take_of_le hbuf.len_le]
  have hlift := liftString_of_bytes hbuf.bytes_eq hbuf.len_le hbuf.short l
  obtain ⟨unexpected, panic, unknown, heq⟩ := check_eq describe l
  rw [heq]
  by_cases hempty : status.errorBuf.len = 0
  · have hnil : message = [] := by
      rw [hempty] at hlen
      exact encode_injective (List.eq_nil_of_length_eq_zero hlen.symm)
    exact ⟨panic, (checkStatus_of_panic hcode).2 hempty, fun h => absurd hnil h⟩
  · exact ⟨l.ofText message, (checkStatus_of_panic hcode).1 _ (by omega) hlift, fun _ => rfl⟩

/-- A method called in any language gives the outcome that it has in the library.  Kotlin refuses short strings too when
the block for them, of three bytes for each code unit, is too large, and C++ does not lower errors. -/
theorem invoke_agrees {R : RustBufferApi} {l : Language} {t : Ty} {method : t.Val (List Char) → Outcome (List Char)}
    {f : RustBuffer → RustBuffer × RustCallStatus} (hf : Scaffolds t method f) {a : t.Val (List Char)}
    (ht : l = .cpp → t ≠ .controllerError) (hfits : t.Fits (t.map encode a))
    (hblock : l = .kotlin → Short (R.alloc ((Kotlin.ffiConverter t).allocationSize (t.map encode16 a))).capacity) :
    Agrees l (method a) (l.invoke describe R f (t.map l.ofText a)) := by
  obtain ⟨arg, harg⟩ := exists_lower R ht hfits hblock
  have hreports := hf a arg hfits (bytes_of_lower ht harg)
  unfold Language.invoke
  rw [harg]
  dsimp only
  cases hmethod : method a with
  | ok text =>
    rw [hmethod] at hreports
    obtain ⟨hcode, hret⟩ := hreports
    rw [(check_eq_ok_iff describe l _).mpr hcode, liftString_of_bytes hret.bytes_eq hret.len_le hret.short l]
    rfl
  | err e =>
    rw [hmethod] at hreports
    obtain ⟨hcode, hbuf⟩ := hreports
    rw [check_of_err describe hcode hbuf l]
    exact ⟨_, rfl, rfl, l.messageOf_ofText (kindOf e) e.display.toList⟩
  | panicked =>
    rw [hmethod] at hreports
    obtain ⟨hcode, message, hbuf⟩ := hreports
    obtain ⟨s, hs, -⟩ := check_of_panicked describe hcode hbuf l
    rw [hs]
    exact ⟨s, rfl⟩

/-! ### A library that reports as it should -/

/-- A buffer that is full. -/
def RustBuffer.full (bytes : Bytes) : RustBuffer := ⟨bytes, bytes.length⟩

theorem carries_full {bytes : Bytes} (h : Short bytes.length) : Carries (RustBuffer.full bytes) bytes :=
  ⟨List.take_length, Nat.le_refl _, h⟩

def report : Outcome (List Char) → RustBuffer × RustCallStatus
  | .ok text => (.full (encode text), ⟨0, .full []⟩)
  | .err e => (.full [], ⟨1, .full (wire .controllerError ⟨kindOf e, encode e.display.toList⟩)⟩)
  | .panicked => (.full [], ⟨2, .full []⟩)

/-- The scaffolding of a method over the converters of one of the bindings. -/
def scaffold (t : Ty) (method : t.Val (List Char) → Outcome (List Char)) (arg : RustBuffer) :
    RustBuffer × RustCallStatus :=
  match (Cpp.ffiConverter t).lift arg with
  | .defined (.ok v) _ => report (method (t.map decode v))
  | _ => report .panicked

/-- What the outcome is reported with is short. -/
def ShortOutcome : Outcome (List Char) → Prop
  | .ok text => Short (encode text).length
  | .err e => Short (wire .controllerError (⟨kindOf e, encode e.display.toList⟩ : ControllerError Bytes)).length
  | .panicked => True

private theorem map_decode_encode {t : Ty} (a : t.Val (List Char)) : t.map decode (t.map encode a) = a := by
  refine (Ty.eq_map_of_rel (R := fun b s => s = decode b) (fun _ _ h => h) ?_).symm
  have hid : a = t.map id a := Ty.eq_map_of_rel (fun _ _ h => h.symm) (Ty.rel_refl a)
  have hrel := Ty.rel_map (R := fun b s => s = decode b) (f := encode) (g := id) (fun s => (decode_encode s).symm) t a
  rwa [← hid] at hrel

theorem reports_report {o : Outcome (List Char)} (h : ShortOutcome o) : Reports o (report o).1 (report o).2 := by
  cases o with
  | ok text => exact ⟨rfl, carries_full h⟩
  | err e => exact ⟨rfl, carries_full h⟩
  | panicked => exact ⟨rfl, [], carries_full (by change 0 < 2 ^ 31; omega)⟩

theorem scaffolds_scaffold {t : Ty} {method : t.Val (List Char) → Outcome (List Char)}
    (h : ∀ a, ShortOutcome (method a)) : Scaffolds t method (scaffold t method) := by
  intro a arg hfits harg
  have hnil : arg.bytes = wire t (t.map encode a) ++ [] := by rw [harg, List.append_nil]
  unfold scaffold
  rw [Cpp.lift_wire hfits hnil]
  dsimp only
  rw [map_decode_encode]
  exact reports_report (h a)

/-! ### `execute` from another language -/

def Call.toLibrary (c : Call (List Char)) : ControllerUniffi.Call where
  contractAddress := ⟨String.ofList c.contractAddress⟩
  entrypoint := String.ofList c.entrypoint
  calldata := c.calldata.map fun s => ⟨String.ofList s⟩

/-- `execute` of a controller account, over texts. -/
def executeTexts {State : Type} (T : Crates) (S : ControllerSdk State) (inner : ControllerInner State)
    (calls : List (Call (List Char))) : Outcome (List Char) :=
  (ControllerAccount.execute T S inner (calls.map Call.toLibrary)).outcome >>= fun hash => .ok hash.value.toList

private theorem message_of_fromHex {s m : String} (h : Reference.fromHex s = .error m) :
    m = "failed to create Felt from string" := by
  unfold Reference.fromHex at h
  dsimp only at h
  split at h
  · split at h
    all_goals
      split at h
      · cases h
      · cases h
        rfl
  · cases h
    rfl

private theorem message_of_getSelectorFromName {s m : String} (h : Reference.getSelectorFromName s = .error m) :
    m = "the provided name is not ASCII" := by
  unfold Reference.getSelectorFromName at h
  split at h
  · cases h
  · split at h
    · cases h
    · split at h
      · cases h
      · cases h
        rfl

/-- The errors of a call that does not convert. -/
private theorem error_of_tryInto {call : ControllerUniffi.Call} {e : ControllerUniffi.ControllerError}
    (h : call.tryInto Crates.reference = .error e) :
    e = .invalidInput "failed to create Felt from string" ∨ e = .invalidInput "the provided name is not ASCII" := by
  unfold ControllerUniffi.Call.tryInto at h
  rcases Collect.bind_eq_error_iff.mp h with h | ⟨_, _, h⟩
  · obtain ⟨m, hm, rfl⟩ := Collect.mapError_eq_error_iff.mp h
    rw [message_of_fromHex hm]
    exact .inl rfl
  rcases Collect.bind_eq_error_iff.mp h with h | ⟨_, _, h⟩
  · obtain ⟨m, hm, rfl⟩ := Collect.mapError_eq_error_iff.mp h
    rw [message_of_getSelectorFromName hm]
    exact .inr rfl
  rcases Collect.bind_eq_error_iff.mp h with h | ⟨_, _, h⟩
  · obtain ⟨m, hm, rfl⟩ := Collect.mapError_eq_error_iff.mp h
    obtain ⟨s, -, hs⟩ := Collect.exists_of_mapM_eq_error hm
    rw [message_of_fromHex hs]
    exact .inl rfl
  · cases h

private theorem short_of_le {n m : Nat} (h : n = m) (hm : m ≤ 100) : Short n := by
  unfold Short
  omega

theorem short_executeTexts (inner : ControllerInner Unit) (calls : List (Call (List Char))) :
    ShortOutcome (executeTexts Crates.reference ControllerSdk.reference inner calls) := by
  unfold executeTexts ControllerAccount.execute
  cases hcalls : tryIntoCalls Crates.reference (calls.map Call.toLibrary) with
  | error e =>
    obtain ⟨call, -, hcall⟩ := Collect.exists_of_mapM_eq_error hcalls
    rcases error_of_tryInto hcall with rfl | rfl
    · refine short_of_le (m := 56) ((wire_length _ _).trans ?_) (by decide)
      decide
    · refine short_of_le (m := 53) ((wire_length _ _).trans ?_) (by decide)
      decide
  | ok callsVec =>
    refine short_of_le (m := 3) ?_ (by decide)
    decide

def newAccount : ControllerInner Unit := ⟨⟨"app", "user", 0, 0, ()⟩, none⟩

/-- A call with a bad address, from Kotlin -/
theorem invoke_agrees_execute :
    Language.kotlin.invoke (t := .sequenceCall) (fun _ => []) .vec
        (scaffold .sequenceCall (executeTexts Crates.reference ControllerSdk.reference newAccount))
        [⟨encode16 ['z'], encode16 ['f'], []⟩] =
      .error (.controllerError ⟨.invalidInput, encode16 "Invalid input: failed to create Felt from string".toList⟩) := by
  have hmethod : executeTexts Crates.reference ControllerSdk.reference newAccount [⟨['z'], ['f'], []⟩] =
      .err (.invalidInput "failed to create Felt from string") := rfl
  have hfits : Ty.sequenceCall.Fits [(⟨encode ['z'], encode ['f'], []⟩ : Call Bytes)] := by
    refine fits_of_wire ?_
    exact short_of_le (m := 18) (wire_length _ _) (by decide)
  have hsize : Short (RustBufferApi.vec.alloc ((Kotlin.ffiConverter .sequenceCall).allocationSize
      (Ty.sequenceCall.map encode16 [⟨['z'], ['f'], []⟩]))).capacity :=
    short_of_le (m := 22) List.length_replicate (by decide)
  have hagrees := invoke_agrees (l := .kotlin) (t := .sequenceCall) (a := [⟨['z'], ['f'], []⟩]) (fun _ => [])
    (scaffolds_scaffold (short_executeTexts newAccount)) nofun hfits fun _ => hsize
  rw [hmethod] at hagrees
  obtain ⟨thrown, hthrown, rfl, -⟩ := hagrees
  exact hthrown

end ControllerUniffi.Ffi
