import Microcode.Proofs.Mode.Prelude

namespace Microcode

theorem Registers.directReads_eq (R : Registers) :
    (if R.direct.toUInt8 == 0 then 0 else 1) = R.directReads := by
  have aligned : R.direct.toUInt8 = 0 ↔ R.direct.toNat % 256 = 0 := by
    rw [← UInt8.toNat_inj, UInt16.toNat_toUInt8]
    rfl
  simp only [directReads, beq_iff_eq, aligned]

theorem Registers.indexReads_bank (R : Registers) (access : Access) (bank base : Nat)
    (index : UInt16) :
    R.indexReads access (bank * 0x10000 + base) index = R.indexReads access base index := by
  have low : (bank * 0x10000 + base) % 256 = base % 256 := by omega
  rw [indexReads, low]
  rfl

theorem Registers.indexReads_eq (R : Registers) (access : Access) (base : Nat) (index : UInt16) :
    (if access == .read then R.indexReads .read base index else 1) =
      R.indexReads access base index := by
  cases access <;> rfl

-- The access that fills the cycle of a modification: eight bits go back as they
-- were, of sixteen the high byte is fetched once more.
def Event.meanwhile (width : Width) (address : Nat → UInt32) (old : List UInt8) (again : UInt8) :
    Event :=
  match width with
  | .eight => .store .data (address 0) (old.headD 0)
  | .sixteen => .fetch .data (address 1) again

namespace Yields

variable {operation : Operation} {width : Width} {rest : Program}
  {post : List Event → State → Prop} {R : Registers} {operand data : List UInt8}
  {A M U : UInt32}

theorem absoluteHead
    (onward : ∀ operand : List UInt8, operand.length = 2 → Yields operation width rest
      (.holding (R.advance 2) operand [] (.ofNat (R.dataBank.toNat * 0x10000 + littleEndian operand))
        addressMask U false)
      fun calls s => post (R.operandCalls operand ++ calls) s) :
    Yields operation width (AddressingMode.absoluteHead ++ rest) (.holding R [] [] A M U false)
      post := by
  refine operandBytes 2 (by decide) fun operand two => ?_
  exact construct (Construction.absolute_apply two) (onward operand two)

theorem longHead {c : Construction} (target : Nat → Nat)
    (applies : ∀ operand : List UInt8, operand.length = 3 →
      c.apply (.holding (R.advance 3) operand [] A M U false) =
        .ok (.holding (R.advance 3) operand [] (.ofNat (target (littleEndian operand))) addressMask U
          false))
    (onward : ∀ operand : List UInt8, operand.length = 3 → Yields operation width rest
      (.holding (R.advance 3) operand [] (.ofNat (target (littleEndian operand))) addressMask U false)
      fun calls s => post (R.operandCalls operand ++ calls) s) :
    Yields operation width (AddressingMode.longHead c ++ rest) (.holding R [] [] A M U false)
      post := by
  refine operandBytes 3 (by decide) fun operand three => ?_
  exact construct (applies operand three) (onward operand three)

theorem indexed {c : Construction} {s : State} {base : Nat} (inside : base < 0x1000000)
    {index : Index} {elide : Bool}
    (applied : c.apply s =
      .ok ((State.holding R operand data A M U false).aimIndexed (.ofNat base) index elide))
    (onward : ∀ dummy : List UInt8,
      dummy.length = (if elide then R.indexReads .read base (R.index index) else 1) →
        Yields operation width rest
          (.holding R operand data (.ofNat ((base + (R.index index).toNat) % 0x1000000)) addressMask
            (.ofNat (uncorrectedAddress base (R.index index).toNat)) false)
          fun calls s => post (dummy.map (.fetch .data
            (.ofNat (uncorrectedAddress base (R.index index).toNat)) ·) ++ calls) s) :
    Yields operation width (.construct c :: .cycle .idleUncorrected :: rest) s post := by
  have value : (UInt32.ofNat base).toNat = base := by
    rw [UInt32.toNat_ofNat']
    omega
  rw [State.aimIndexed_holding (by rw [value]; exact inside), value] at applied
  refine construct applied (idle rfl fun dummy length => onward dummy ?_)
  rw [length]
  cases elide with
  | false => rfl
  | true =>
    simp only [Registers.indexReads, Bool.true_and, Bool.and_eq_true, beq_iff_eq,
      decide_eq_true_eq, true_and, if_true]

theorem direct {c : Construction} (offset : UInt16)
    (applies : ∀ operand : List UInt8,
      c.apply (.holding (R.advance 1) operand [] A M U false) =
        .ok ((State.holding (R.advance 1) operand [] A M U false).aimDirect offset))
    (onward : ∀ operand idle : List UInt8, operand.length = 1 → idle.length = R.directReads →
      Yields operation width rest
        (.holding (R.advance 1) operand []
          (.ofNat ((R.direct.toNat + littleEndian operand + offset.toNat) % 0x10000)) bankMask U
          false)
        fun calls s => post (R.operandCalls operand ++
          (idle.map (.fetch .program (R.advance 1).programAddress ·) ++ calls)) s) :
    Yields operation width (.cycle .fetchOperand :: .construct c :: .cycle .idleProgram :: rest)
      (.holding R [] [] A M U false) post := by
  refine operandBytes 1 (by decide) fun operand one => ?_
  have aimed := applies operand
  rw [State.aimDirect_holding one] at aimed
  refine construct aimed ?_
  refine idle rfl fun bytes length => ?_
  exact onward operand bytes one (length.trans R.directReads_eq)

theorem indexedHead (index : Index) (elide : Bool)
    (onward : ∀ operand dummy : List UInt8, operand.length = 2 →
      dummy.length =
          (if elide then R.indexReads .read (littleEndian operand) (R.index index) else 1) →
        Yields operation width rest
          (.holding (R.advance 2) operand []
            (.ofNat ((R.dataBank.toNat * 0x10000 + littleEndian operand + (R.index index).toNat) %
              0x1000000)) addressMask
            (.ofNat (uncorrectedAddress (R.dataBank.toNat * 0x10000 + littleEndian operand)
              (R.index index).toNat)) false)
          fun calls s => post (R.operandCalls operand ++
            (dummy.map (.fetch .data (.ofNat (uncorrectedAddress
              (R.dataBank.toNat * 0x10000 + littleEndian operand) (R.index index).toNat)) ·) ++
                calls)) s) :
    Yields operation width (AddressingMode.indexedHead index elide ++ rest)
      (.holding R [] [] A M U false) post := by
  refine operandBytes 2 (by decide) fun operand two => ?_
  have bound := littleEndian_lt operand
  have bank := (R.advance 2).dataBank.toNat_lt
  rw [two] at bound
  refine indexed (by omega) (Construction.absoluteIndexed_apply two index elide)
    fun dummy length => onward operand dummy two (length.trans ?_)
  exact congrArg (if elide then · else 1) ((R.advance 2).indexReads_bank ..)

theorem directIndexedHead {c : Construction} (offset : UInt16)
    (applies : ∀ operand : List UInt8,
      c.apply (.holding (R.advance 1) operand [] A M U false) =
        .ok ((State.holding (R.advance 1) operand [] A M U false).aimDirect offset))
    (onward : ∀ operand idle : List UInt8, operand.length = 1 → idle.length = R.directReads + 1 →
      Yields operation width rest
        (.holding (R.advance 1) operand []
          (.ofNat ((R.direct.toNat + littleEndian operand + offset.toNat) % 0x10000)) bankMask U
          false)
        fun calls s => post (R.operandCalls operand ++
          (idle.map (.fetch .program (R.advance 1).programAddress ·) ++ calls)) s) :
    Yields operation width (AddressingMode.directIndexedHead c ++ rest)
      (.holding R [] [] A M U false) post := by
  refine direct offset applies fun operand first one length => idle rfl fun second single => ?_
  have both := onward operand (first ++ second) one (by simp [length, single])
  rw [List.map_append] at both
  simp only [List.append_assoc] at both
  exact both

theorem stackHead
    (onward : ∀ operand idle : List UInt8, operand.length = 1 → idle.length = 1 →
      Yields operation width rest
        (.holding (R.advance 1) operand []
          (.ofNat ((R.s.toNat + littleEndian operand) % 0x10000)) bankMask U false)
        fun calls s => post (R.operandCalls operand ++
          (idle.map (.fetch .program (R.advance 1).programAddress ·) ++ calls)) s) :
    Yields operation width (AddressingMode.stackHead ++ rest) (.holding R [] [] A M U false)
      post := by
  refine operandBytes 1 (by decide) fun operand one => ?_
  refine construct (Construction.stackRelative_apply one) (idle rfl fun bytes length => ?_)
  exact onward operand bytes one length

theorem pointer {P : Nat} (inside : P < 0x10000) (n : Nat) (few : n < 4)
    (onward : ∀ pointer : List UInt8, pointer.length = n + 1 → Yields operation width rest
      (.holding R operand pointer (.ofNat ((P + n) % 0x10000)) bankMask U false)
      fun calls s => post (Event.fetches .data (fun i => .ofNat ((P + i) % 0x10000)) pointer ++
        calls) s) :
    Yields operation width (List.replicate n (.cycle .fetchDataUp) ++ .cycle .fetchData :: rest)
      (.holding R operand [] (.ofNat P) bankMask U false) post := by
  have wraps : ∀ i, Wrap.bank.after P i = (P + i) % 0x10000 := Wrap.after_of_lt inside
  refine dataBytes (w := .bank) (by omega) n (by simpa using few) fun bytes length => ?_
  simp only [wraps]
  exact onward bytes length

theorem indexedPointer (two : data.length = 2) (elide : Bool)
    (onward : ∀ dummy : List UInt8,
      dummy.length = (if elide then R.indexReads .read (littleEndian data) R.y else 1) →
        Yields operation width rest
          (.holding R operand []
            (.ofNat ((R.dataBank.toNat * 0x10000 + littleEndian data + R.y.toNat) % 0x1000000))
            addressMask
            (.ofNat (uncorrectedAddress (R.dataBank.toNat * 0x10000 + littleEndian data) R.y.toNat))
            false)
          fun calls s => post (dummy.map (.fetch .data (.ofNat (uncorrectedAddress
            (R.dataBank.toNat * 0x10000 + littleEndian data) R.y.toNat)) ·) ++ calls) s) :
    Yields operation width
      (.construct (.directIndirectIndexed elide) :: .cycle .idleUncorrected :: rest)
      (.holding R operand data A M U false) post := by
  have bound := littleEndian_lt data
  have bank := R.dataBank.toNat_lt
  rw [two] at bound
  refine indexed (by omega) (Construction.directIndirectIndexed_apply two elide)
    fun dummy length => onward dummy (length.trans ?_)
  exact congrArg (if elide then · else 1) (R.indexReads_bank ..)

theorem operandFetches {w : Wrap} {A : Nat} (inside : A < w.size)
    (onward : ∀ data : List UInt8, data.length = width.bytes.toNat → Yields operation width rest
      (.holding R operand data (.ofNat ((A + (width.bytes.toNat - 1)) % w.size)) w.mask U false)
      fun calls s => post (Event.fetches .data (fun i => .ofNat ((A + i) % w.size)) data ++ calls) s) :
    Yields operation width (Program.operandFetches width ++ rest)
      (.holding R operand [] (.ofNat A) w.mask U false) post := by
  have small : A < 0x1000000 := Nat.lt_of_lt_of_le inside (by cases w <;> decide)
  have few : width.bytes.toNat - 1 < 4 ∧ width.bytes.toNat - 1 + 1 = width.bytes.toNat := by
    cases width <;> decide
  rw [Program.operandFetches, List.append_assoc, List.singleton_append]
  refine dataBytes small _ (by simpa using few.1) fun data length => ?_
  simp only [Wrap.after_of_lt inside]
  exact onward data (length.trans few.2)

open AddressingMode in
-- The head of a program reads what its mode asks for and leaves the address of
-- the operand, with the data buffer empty.
theorem head {mode : AddressingMode} (located : mode.isTransfer ∨ mode.isModify) {access : Access}
    (onward : ∀ (reading : Reading) (uncorrected : UInt32), reading.Fits mode access R →
      Yields operation width rest
        (.holding (R.advance mode.operandLength) reading.operand [] (.ofNat (reading.target mode R))
          mode.wrap.mask uncorrected false)
        fun calls s => post (reading.calls mode R ++ calls) s) :
    Yields operation width (mode.head access ++ rest) (.holding R [] [] A M U false) post := by
  simp only [Reading.calls_append] at onward
  cases mode with
  | absolute | absoluteModify =>
    refine absoluteHead fun operand length => ?_
    exact onward ⟨operand, [], [], []⟩ U ⟨length, rfl, rfl, rfl⟩
  | absoluteLong =>
    refine longHead id (fun _ => Construction.absoluteLong_apply) fun operand length => ?_
    exact onward ⟨operand, [], [], []⟩ U ⟨length, rfl, rfl, rfl⟩
  | absoluteLongX =>
    refine longHead (fun long => (long + R.x.toNat) % 0x1000000)
      (fun _ => Construction.absoluteLongX_apply) fun operand length => ?_
    exact onward ⟨operand, [], [], []⟩ U ⟨length, rfl, rfl, rfl⟩
  | absoluteX =>
    refine indexedHead .x _ fun operand dummy two length => ?_
    exact onward ⟨operand, [], [], dummy⟩ _ ⟨two, rfl, rfl, length.trans (R.indexReads_eq ..)⟩
  | absoluteY =>
    refine indexedHead .y _ fun operand dummy two length => ?_
    exact onward ⟨operand, [], [], dummy⟩ _ ⟨two, rfl, rfl, length.trans (R.indexReads_eq ..)⟩
  | absoluteXModify =>
    refine indexedHead .x _ fun operand dummy two length => ?_
    exact onward ⟨operand, [], [], dummy⟩ _ ⟨two, rfl, rfl, length⟩
  | direct | directModify =>
    refine direct 0 (fun _ => rfl) fun operand idle one length => ?_
    exact onward ⟨operand, idle, [], []⟩ U ⟨one, length, rfl, rfl⟩
  | directX | directXModify =>
    refine directIndexedHead R.x (fun _ => rfl) fun operand idle one length => ?_
    exact onward ⟨operand, idle, [], []⟩ U ⟨one, length, rfl, rfl⟩
  | directY =>
    refine directIndexedHead R.y (fun _ => rfl) fun operand idle one length => ?_
    exact onward ⟨operand, idle, [], []⟩ U ⟨one, length, rfl, rfl⟩
  | stackRelative =>
    refine stackHead fun operand idle one length => ?_
    exact onward ⟨operand, idle, [], []⟩ U ⟨one, length, rfl, rfl⟩
  | directIndexedIndirect =>
    refine directIndexedHead R.x (fun _ => rfl) fun operand idle one length => ?_
    refine pointer (Nat.mod_lt _ (by decide)) 1 (by decide) fun bytes two => ?_
    refine construct (Construction.directIndirect_apply two) ?_
    exact onward ⟨operand, idle, bytes, []⟩ U ⟨one, length, two, rfl⟩
  | directIndirect =>
    refine direct 0 (fun _ => rfl) fun operand idle one length => ?_
    refine pointer (Nat.mod_lt _ (by decide)) 1 (by decide) fun bytes two => ?_
    refine construct (Construction.directIndirect_apply two) ?_
    exact onward ⟨operand, idle, bytes, []⟩ U ⟨one, length, two, rfl⟩
  | directIndirectIndexed =>
    refine direct 0 (fun _ => rfl) fun operand idle one length => ?_
    refine pointer (Nat.mod_lt _ (by decide)) 1 (by decide) fun bytes two => ?_
    refine indexedPointer two _ fun dummy asked => ?_
    exact onward ⟨operand, idle, bytes, dummy⟩ _ ⟨one, length, two, asked.trans (R.indexReads_eq ..)⟩
  | directIndirectLong =>
    refine direct 0 (fun _ => rfl) fun operand idle one length => ?_
    refine pointer (Nat.mod_lt _ (by decide)) 2 (by decide) fun bytes three => ?_
    refine construct (Construction.directIndirectLong_apply three) ?_
    exact onward ⟨operand, idle, bytes, []⟩ U ⟨one, length, three, rfl⟩
  | directIndirectLongIndexed =>
    refine direct 0 (fun _ => rfl) fun operand idle one length => ?_
    refine pointer (Nat.mod_lt _ (by decide)) 2 (by decide) fun bytes three => ?_
    refine construct (Construction.directIndirectLongIndexed_apply three) ?_
    exact onward ⟨operand, idle, bytes, []⟩ U ⟨one, length, three, rfl⟩
  | stackRelativeIndirectIndexed =>
    refine stackHead fun operand idle one length => ?_
    refine pointer (Nat.mod_lt _ (by decide)) 1 (by decide) fun bytes two => ?_
    refine Yields.idle rfl fun dummy asked => ?_
    refine construct (Construction.stackRelativeIndirectIndexed_apply two) ?_
    exact onward ⟨operand, idle, bytes, dummy⟩ U ⟨one, length, two, asked⟩
  | _ => simp [isTransfer, isModify] at located

open AddressingMode in
theorem modifyPrelude {mode : AddressingMode} (modifies : mode.isModify) {access : Access}
    (onward : ∀ (reading : Reading) (old : List UInt8) (again : UInt8) (U : UInt32),
      reading.Fits mode access R → old.length = width.bytes.toNat →
        let address := fun i => UInt32.ofNat ((reading.target mode R + i) % mode.wrap.size)
        Yields operation width rest
          (.holding (R.advance mode.operandLength) reading.operand old
            (address (width.bytes.toNat - 1)) mode.wrap.mask U false)
          fun calls s => post (reading.calls mode R ++ (Event.fetches .data address old ++
            .meanwhile width address old again :: calls)) s) :
    Yields operation width (mode.prelude access width ++ rest) (.holding R [] [] A M U false)
      post := by
  rw [prelude_of_isModify modifies, List.append_assoc, List.append_assoc]
  refine head (.inr modifies) fun reading U fits => ?_
  have inside := reading.target_lt (.inr modifies) fits
  refine operandFetches inside fun old whole => ?_
  cases width with
  | eight =>
    obtain ⟨byte, rfl⟩ := List.length_eq_one_iff.mp whole
    refine store rfl rfl ?_
    rw [Buffer.lowest_ofBytes byte (by simp)]
    exact onward reading [byte] 0 U fits whole
  | sixteen => exact fetch rfl rfl (fun _ => rfl) fun again => onward reading old again U fits whole

end Yields

end Microcode
