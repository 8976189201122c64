import Mathlib.Tactic.ByContra
import ControllerUniffi.ControllerAccount
import ControllerUniffi.SessionAccount

/-!
# Submitting calls

A list of calls is converted as a whole before anything else happens (`tryIntoCalls_eq_ok_iff`), so that on each of
the three paths either nothing is submitted and nothing changes, or exactly the converted list is
(`submission_all_or_nothing`).  A transfer submits its amount as one word; it is the encoding of the amount iff that
fits the word (`transfer_encodes_iff`).
-/

namespace ControllerUniffi

open Text Collect

/-! ### Converting calls -/

section

variable {T : Crates}

/-- Something in the call is refused by the conversions. -/
def Call.Rejected (T : Crates) (call : Call) : Prop :=
  (∀ f, T.fromHex call.contractAddress.value ≠ .ok f) ∨ (∀ f, T.getSelectorFromName call.entrypoint ≠ .ok f) ∨
    ∃ s ∈ call.calldata, ∀ f, T.fromHex s.value ≠ .ok f

/-- The call `c` is the conversion of `call`, part by part. -/
structure Call.ConvertsTo (T : Crates) (call : Call) (c : StarknetCall) : Prop where
  toAddress : T.fromHex call.contractAddress.value = .ok c.toAddress
  selector : T.getSelectorFromName call.entrypoint = .ok c.selector
  calldata : List.Forall₂ (fun s f => T.fromHex s.value = .ok f) call.calldata c.calldata

theorem Call.tryInto_eq_ok_iff {call : Call} {c : StarknetCall} : call.tryInto T = .ok c ↔ call.ConvertsTo T c := by
  unfold Call.tryInto
  simp only [bind_eq_ok_iff, mapError_eq_ok_iff, mapM_eq_ok_iff]
  constructor
  · rintro ⟨contractAddress, haddress, selector, hselector, calldata, hcalldata, hc⟩
    cases hc
    exact ⟨haddress, hselector, hcalldata⟩
  · rintro ⟨haddress, hselector, hcalldata⟩
    exact ⟨_, haddress, _, hselector, _, hcalldata, rfl⟩

theorem Call.isInvalidInput_of_tryInto {call : Call} {e : ControllerError} (h : call.tryInto T = .error e) :
    e.IsInvalidInput := by
  unfold Call.tryInto at h
  rcases bind_eq_error_iff.1 h with h | ⟨_, _, h⟩
  · exact isInvalidInput_of_mapError h
  rcases bind_eq_error_iff.1 h with h | ⟨_, _, h⟩
  · exact isInvalidInput_of_mapError h
  rcases bind_eq_error_iff.1 h with h | ⟨_, _, h⟩
  · exact isInvalidInput_of_mapError h
  · cases h

/-- A call is refused iff something in it is. -/
theorem Call.rejected_iff {call : Call} : call.Rejected T ↔ ∃ e, call.tryInto T = .error e := by
  have hcalldata : (∃ s ∈ call.calldata, ∀ f, T.fromHex s.value ≠ .ok f) ↔
      ¬ ∃ fs, call.calldata.mapM (fun s => T.fromHex s.value) = .ok fs := by
    rw [exists_mapM_eq_ok_iff]
    simp only [not_forall, not_exists, exists_prop, ne_eq]
  constructor
  · intro h
    rcases ok_or_error (call.tryInto T) with ⟨c, hc⟩ | he
    · obtain ⟨haddress, hselector, hdata⟩ := Call.tryInto_eq_ok_iff.1 hc
      rcases h with h | h | h
      · exact absurd haddress (h _)
      · exact absurd hselector (h _)
      · exact absurd ⟨_, mapM_eq_ok_iff.2 hdata⟩ (hcalldata.1 h)
    · exact he
  · rintro ⟨e, he⟩
    -- if nothing were refused the call would convert
    by_contra hnot
    simp only [Call.Rejected, not_or, not_forall, not_not, hcalldata] at hnot
    obtain ⟨⟨f, hf⟩, ⟨selector, hselector⟩, ⟨fs, hfs⟩⟩ := hnot
    have hok := Call.tryInto_eq_ok_iff.2 (show call.ConvertsTo T ⟨f, selector, fs⟩ from
      ⟨hf, hselector, mapM_eq_ok_iff.1 hfs⟩)
    rw [he] at hok
    cases hok

variable {calls : List Call}

theorem tryIntoCalls_eq_ok_iff {cs : List StarknetCall} :
    tryIntoCalls T calls = .ok cs ↔ List.Forall₂ (Call.ConvertsTo T) calls cs := by
  unfold tryIntoCalls
  rw [mapM_eq_ok_iff]
  exact ⟨fun h => h.imp fun _ _ => Call.tryInto_eq_ok_iff.1, fun h => h.imp fun _ _ => Call.tryInto_eq_ok_iff.2⟩

theorem exists_tryIntoCalls_eq_error_iff :
    (∃ e, tryIntoCalls T calls = .error e) ↔ ∃ call ∈ calls, call.Rejected T := by
  unfold tryIntoCalls
  rw [exists_mapM_eq_error_iff]
  simp only [Call.rejected_iff]

theorem isInvalidInput_of_tryIntoCalls {e : ControllerError} (h : tryIntoCalls T calls = .error e) :
    e.IsInvalidInput := by
  obtain ⟨call, _, hcall⟩ := exists_of_mapM_eq_error h
  exact Call.isInvalidInput_of_tryInto hcall

end

/-! ### The three paths -/

/-- Call by call, the calls of the outside execution have the parts of the converted ones. -/
theorem forall₂_abigenCall {T : Crates} {calls : List Call} {cs : List StarknetCall}
    (h : List.Forall₂ (Call.ConvertsTo T) calls cs) :
    List.Forall₂ (fun (call : Call) (c : AbigenCall) => T.fromHex call.contractAddress.value = .ok c.toAddress ∧
      T.getSelectorFromName call.entrypoint = .ok c.selector ∧
      List.Forall₂ (fun s f => T.fromHex s.value = .ok f) call.calldata c.calldata)
      calls (cs.map SessionAccount.abigenCall) := by
  rw [List.forall₂_map_right_iff]
  exact h.imp fun _ _ hc => ⟨hc.toAddress, hc.selector, hc.calldata⟩

section

variable {State Session AbigenSigner : Type} {T : Crates} {C : ControllerSdk State}
  {S : SessionSdk Session AbigenSigner} {controller : ControllerInner State} {session : SessionAccountInner Session}
  {now : UInt64} {random : Felt} {calls : List Call} {cs : List StarknetCall}

theorem ControllerAccount.execute_requests (h : tryIntoCalls T calls = .ok cs) :
    (ControllerAccount.execute T C controller calls).requests = [.executeV3 cs] := by
  unfold ControllerAccount.execute
  rw [h]
  unfold ControllerAccount.conclude
  dsimp only
  split <;> rfl

theorem SessionAccount.execute_requests (h : tryIntoCalls T calls = .ok cs) :
    (SessionAccount.execute T S session calls).requests = [.executeV3 cs] := by
  unfold SessionAccount.execute
  rw [h]
  dsimp only
  split <;> rfl

theorem SessionAccount.executeFromOutside_requests_of_error (h : tryIntoCalls T calls = .ok cs) {e : String}
    {account : SdkSessionAccount Session}
    (hsign : S.signOutsideExecution session.sessionAccount (.v3 (outsideExecution now random cs)) =
      (.error e, account)) :
    (SessionAccount.executeFromOutside T S now random session calls).requests =
      [.signOutsideExecution (.v3 (outsideExecution now random cs))] := by
  unfold SessionAccount.executeFromOutside
  rw [h]
  simp only [hsign]

theorem SessionAccount.executeFromOutside_requests_of_ok (h : tryIntoCalls T calls = .ok cs) {signature : List Felt}
    {account : SdkSessionAccount Session}
    (hsign : S.signOutsideExecution session.sessionAccount (.v3 (outsideExecution now random cs)) =
      (.ok signature, account)) :
    (SessionAccount.executeFromOutside T S now random session calls).requests =
      [.signOutsideExecution (.v3 (outsideExecution now random cs)),
        .addExecuteOutsideTransaction (.v3 (outsideExecution now random cs)) account.address signature] := by
  unfold SessionAccount.executeFromOutside
  rw [h]
  simp only [hsign]
  split <;> rfl

end

section

variable {State Session AbigenSigner : Type} (T : Crates) (C : ControllerSdk State)
  (S : SessionSdk Session AbigenSigner) (controller : ControllerInner State) (session : SessionAccountInner Session)
  (now : UInt64) (random : Felt) (calls : List Call)

/-- If something in the calls is refused, all three paths return the same invalid input, request nothing and change
nothing.  Otherwise all three submit the calls, converted one by one and part by part: directly, and from outside in
the execution that is signed and, once signed, submitted. -/
theorem submission_all_or_nothing :
    ((∃ call ∈ calls, call.Rejected T) → ∃ m,
      ControllerAccount.execute T C controller calls =
        { outcome := .err (.invalidInput m), requests := [], state := controller } ∧
      SessionAccount.execute T S session calls =
        { outcome := .err (.invalidInput m), requests := [], state := session } ∧
      SessionAccount.executeFromOutside T S now random session calls =
        { outcome := .err (.invalidInput m), requests := [], state := session }) ∧
    (¬ (∃ call ∈ calls, call.Rejected T) → ∃ cs, List.Forall₂ (Call.ConvertsTo T) calls cs ∧
      (ControllerAccount.execute T C controller calls).requests = [.executeV3 cs] ∧
      (SessionAccount.execute T S session calls).requests = [.executeV3 cs] ∧
      ∃ execution : OutsideExecutionV3,
        List.Forall₂ (fun (call : Call) (c : AbigenCall) => T.fromHex call.contractAddress.value = .ok c.toAddress ∧
          T.getSelectorFromName call.entrypoint = .ok c.selector ∧
          List.Forall₂ (fun s f => T.fromHex s.value = .ok f) call.calldata c.calldata) calls execution.calls ∧
        (∀ e account, S.signOutsideExecution session.sessionAccount (.v3 execution) = (.error e, account) →
          (SessionAccount.executeFromOutside T S now random session calls).requests =
            [.signOutsideExecution (.v3 execution)]) ∧
        ∀ signature account, S.signOutsideExecution session.sessionAccount (.v3 execution) = (.ok signature, account) →
          (SessionAccount.executeFromOutside T S now random session calls).requests =
            [.signOutsideExecution (.v3 execution),
              .addExecuteOutsideTransaction (.v3 execution) account.address signature]) := by
  constructor
  · intro hrejected
    obtain ⟨e, he⟩ := exists_tryIntoCalls_eq_error_iff.2 hrejected
    obtain ⟨m, rfl⟩ := isInvalidInput_of_tryIntoCalls he
    refine ⟨m, ?_, ?_, ?_⟩
    · rw [ControllerAccount.execute, he]
      rfl
    · rw [SessionAccount.execute, he]
    · rw [SessionAccount.executeFromOutside, he]
  · intro haccepted
    rcases ok_or_error (tryIntoCalls T calls) with ⟨cs, hcs⟩ | he
    · have hconverted := tryIntoCalls_eq_ok_iff.1 hcs
      refine ⟨cs, hconverted, ControllerAccount.execute_requests hcs, SessionAccount.execute_requests hcs,
        SessionAccount.outsideExecution now random cs, forall₂_abigenCall hconverted, ?_, ?_⟩
      · intro e account hsign
        exact SessionAccount.executeFromOutside_requests_of_error hcs hsign
      · intro signature account hsign
        exact SessionAccount.executeFromOutside_requests_of_ok hcs hsign
    · exact absurd (exists_tryIntoCalls_eq_error_iff.1 he) haccepted

end

/-! ### Transfers -/

/-- The number in two words of 128 bits, as the contract reads it. -/
def decodeU256 (low high : Felt) : Option Nat :=
  if low.val < 2 ^ 128 ∧ high.val < 2 ^ 128 then some (low.val + 2 ^ 128 * high.val) else none

/-- The second word adds nothing, but the first has to fit. -/
theorem decodeU256_zero {low : Felt} : decodeU256 low 0 = some low.val ↔ low.val < 2 ^ 128 := by
  unfold decodeU256
  simp

section

variable (T : Crates) {State : Type} (C : ControllerSdk State) (controller : ControllerInner State)

theorem ControllerAccount.transfer_requests (hselectors : T.SelectorsOfAscii) {recipient amount : ControllerFieldElement}
    {recipientFelt amountFelt : Felt} (hrecipient : T.fromHex recipient.value = .ok recipientFelt)
    (hamount : T.fromHex amount.value = .ok amountFelt) :
    ∃ selector, T.getSelectorFromName "transfer" = .ok selector ∧
      (ControllerAccount.transfer T C controller recipient amount).requests =
        [.executeV3 [⟨C.strkContractAddress, selector, [recipientFelt, amountFelt, 0]⟩]] := by
  obtain ⟨selector, hselector⟩ := (hselectors "transfer").2 (forall_mem_of_all (by decide))
  refine ⟨selector, hselector, ?_⟩
  unfold ControllerAccount.transfer
  simp only [hrecipient, hamount, hselector]
  unfold ControllerAccount.conclude
  dsimp only
  split <;> rfl

/-- A transfer whose arguments parse submits the recipient and two words; the contract reads the amount in them iff
it is below `2 ^ 128`. -/
theorem transfer_encodes_iff (hselectors : T.SelectorsOfAscii) (recipient amount : ControllerFieldElement)
    (recipientFelt amountFelt : Felt) (hrecipient : T.fromHex recipient.value = .ok recipientFelt)
    (hamount : T.fromHex amount.value = .ok amountFelt) :
    (∃ call low high, (ControllerAccount.transfer T C controller recipient amount).requests = [.executeV3 [call]] ∧
      call.calldata = [recipientFelt, low, high] ∧ decodeU256 low high = some amountFelt.val) ↔
    amountFelt.val < 2 ^ 128 := by
  obtain ⟨selector, _, hrequests⟩ :=
    ControllerAccount.transfer_requests T C controller hselectors hrecipient hamount
  rw [hrequests]
  constructor
  · rintro ⟨call, low, high, hcall, hcalldata, hdecode⟩
    cases hcall
    cases hcalldata
    exact decodeU256_zero.1 hdecode
  · intro h
    exact ⟨_, amountFelt, 0, rfl, rfl, decodeU256_zero.2 h⟩

end

theorem transfer_encodes_iff_one :
    (∃ call low high, (ControllerAccount.transfer Crates.reference ControllerSdk.reference
        ⟨⟨"app", "user", 0, 0, ()⟩, none⟩ ⟨"0x5"⟩ ⟨"0x1"⟩).requests = [.executeV3 [call]] ∧
      call.calldata = [5, low, high] ∧ decodeU256 low high = some (1 : Felt).val) ↔ (1 : Felt).val < 2 ^ 128 :=
  transfer_encodes_iff Crates.reference ControllerSdk.reference _ Reference.selectorsOfAscii ⟨"0x5"⟩ ⟨"0x1"⟩ 5 1
    (by decide) (by decide)

/-- The amount `2 ^ 128` is submitted in a word that the contract cannot read. -/
theorem transfer_overflow :
    ¬ ∃ call low high, (ControllerAccount.transfer Crates.reference ControllerSdk.reference
        ⟨⟨"app", "user", 0, 0, ()⟩, none⟩ ⟨"0x5"⟩ ⟨"0x100000000000000000000000000000000"⟩).requests =
          [.executeV3 [call]] ∧
      call.calldata = [5, low, high] ∧ decodeU256 low high = some (2 ^ 128) := by
  obtain ⟨selector, _, hrequests⟩ := ControllerAccount.transfer_requests Crates.reference ControllerSdk.reference
    ⟨⟨"app", "user", 0, 0, ()⟩, none⟩ Reference.selectorsOfAscii
    (show Crates.reference.fromHex (⟨"0x5"⟩ : ControllerFieldElement).value = .ok 5 by decide)
    (show Crates.reference.fromHex (⟨"0x100000000000000000000000000000000"⟩ : ControllerFieldElement).value =
      .ok 0x100000000000000000000000000000000 by decide)
  rw [hrequests]
  rintro ⟨call, low, high, hcall, hcalldata, hdecode⟩
  cases hcall
  cases hcalldata
  exact absurd hdecode (by decide)

end ControllerUniffi
