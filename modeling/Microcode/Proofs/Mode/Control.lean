import Microcode.Proofs.Mode.Head

namespace Microcode

def wordBytes (word : UInt16) : List UInt8 :=
  [word.toUInt8, (word >>> 8).toUInt8]

theorem littleEndian_wordBytes (word : UInt16) : littleEndian (wordBytes word) = word.toNat := by
  have bound := word.toNat_lt
  simp only [wordBytes, littleEndian, UInt16.toNat_toUInt8, UInt16.toNat_shiftRight]
  change word.toNat % 256 + 256 * (word.toNat >>> 8 % 256 + 256 * 0) = _
  rw [Nat.shiftRight_eq_div_pow]
  omega

namespace Buffer

theorem ofValue_eq_ofBytes {value : UInt32} {bytes : List UInt8} (few : bytes.length < 4)
    (same : littleEndian bytes = value.toNat % 256 ^ bytes.length) :
    ofValue value (.ofNat bytes.length) = ofBytes bytes := by
  have size : (UInt8.ofNat bytes.length).toNat = bytes.length := by
    rw [UInt8.toNat_ofNat']
    omega
  refine Buffer.ext ?_ ?_
  · apply UInt32.toNat_inj.mp
    rw [ofValue_toNat (by rw [size]; exact few), toNat_value_ofBytes (Nat.le_of_lt few), size, same]
  · rw [size_ofValue]
    rfl

theorem ofValue_word (word : UInt16) : ofValue word.toUInt32 2 = ofBytes (wordBytes word) := by
  have few : (wordBytes word).length < 4 := by simp [wordBytes]
  have whole : word.toNat < 256 ^ (wordBytes word).length := by
    rw [← littleEndian_wordBytes]
    exact littleEndian_lt _
  refine ofValue_eq_ofBytes few ?_
  rw [littleEndian_wordBytes, UInt16.toNat_toUInt32, Nat.mod_eq_of_lt whole]

theorem ofValue_byte (byte : UInt8) : ofValue byte.toUInt32 1 = ofBytes [byte] := by
  have few : [byte].length < 4 := by simp
  have whole := littleEndian_lt [byte]
  refine ofValue_eq_ofBytes few ?_
  rw [UInt8.toNat_toUInt32]
  exact (Nat.mod_eq_of_lt whole).symm

end Buffer

theorem destinationAddress_holding (R : Registers) (destination source : UInt8) (data : List UInt8)
    (A M U : UInt32) (marked : Bool) :
    (State.holding R [destination, source] data A M U marked).destinationAddress =
      inBank destination R.y :=
  congrArg (inBank · R.y) (Buffer.lowest_ofBytes destination (by simp))

theorem sourceAddress_holding (R : Registers) (destination source : UInt8) (data : List UInt8)
    (A M U : UInt32) (marked : Bool) :
    (State.holding R [destination, source] data A M U marked).sourceAddress = inBank source R.x := by
  have rest : (Buffer.ofBytes [destination, source]).takeLowest.2 = .ofBytes [source] :=
    congrArg Prod.snd (Buffer.takeLowest_ofBytes (by simp))
  have second : ((Buffer.ofBytes [destination, source]).value >>> 8).toUInt8 = source :=
    (congrArg Buffer.lowest rest).trans (Buffer.lowest_ofBytes source (by simp))
  exact congrArg (inBank · R.x) second

namespace Yields

variable {operation : Operation} {access : Access} {width : Width} {rest : Program}
  {post : List Event → State → Prop} {R : Registers} {operand data : List UInt8}
  {A M U : UInt32}

theorem bankPointer {P : Nat} (inside : P < 0x1000000) (n : Nat) (few : n < 4)
    (onward : ∀ pointer : List UInt8, pointer.length = n + 1 → Yields operation width rest
      (.holding R operand pointer (.ofNat (Wrap.bank.after P n)) bankMask U false)
      fun calls s => post (Event.fetches .data (fun i => .ofNat (Wrap.bank.after P i)) pointer ++
        calls) s) :
    Yields operation width (List.replicate n (.cycle .fetchDataUp) ++ .cycle .fetchData :: rest)
      (.holding R operand [] (.ofNat P) bankMask U false) post :=
  dataBytes (w := .bank) inside n (by simpa using few) onward

theorem fetchSource {destination source : UInt8}
    (onward : ∀ byte, Yields operation width rest
      (.holding R [destination, source] [byte] (inBank source R.x) M U false)
      fun calls s => post (.fetch .data (inBank source R.x) byte :: calls) s) :
    Yields operation width (.cycle .fetchSource :: rest)
      (.holding R [destination, source] [] A M U false) post := by
  have asks : BusCycle.fetchSource.transfer
      (State.holding R [destination, source] [] A M U false).toDatapath =
        .fetch (inBank source R.x)
          (State.holding R [destination, source] [] (inBank source R.x) M U false).pushData := by
    rw [← sourceAddress_holding R destination source [] A M U false]
    rfl
  refine fetch rfl asks (fun byte => ?_) onward
  rw [Datapath.pushData, Buffer.push_ofBytes (by simp)]
  rfl

theorem storeDestination {destination source byte : UInt8}
    (onward : Yields operation width rest
      (.holding R [destination, source] [] (inBank destination R.y) M U false)
      fun calls s => post (.store .data (inBank destination R.y) byte :: calls) s) :
    Yields operation width (.cycle .storeDestination :: rest)
      (.holding R [destination, source] [byte] A M U false) post := by
  have taken : (Buffer.ofBytes [byte]).takeLowest = (byte, .ofBytes []) :=
    Buffer.takeLowest_ofBytes (by simp)
  have asks : BusCycle.storeDestination.transfer
      (State.holding R [destination, source] [byte] A M U false).toDatapath =
        .store (inBank destination R.y) byte
          (State.holding R [destination, source] [] (inBank destination R.y) M U false).toDatapath := by
    rw [← destinationAddress_holding R destination source [byte] A M U false]
    simp only [BusCycle.transfer, Datapath.storeLowest, taken]
    rfl
  exact store rfl asks onward

theorem idleDestination {destination source : UInt8}
    (onward : ∀ byte, Yields operation width rest
      (.holding R [destination, source] data A M U false)
      fun calls s => post (.fetch .data (inBank destination R.y) byte :: calls) s) :
    Yields operation width (.cycle .idleDestination :: rest)
      (.holding R [destination, source] data A M U false) post := by
  rw [← destinationAddress_holding R destination source data A M U false] at onward
  exact fetch rfl rfl (fun _ => rfl) onward

theorem absoluteJump
    (onward : ∀ operand : List UInt8, operand.length = 2 → Yields operation width rest
      (.holding (R.advance 1) operand [] (.ofNat (R.dataBank.toNat * 0x10000 + littleEndian operand))
        addressMask U false)
      fun calls s => post (R.operandCalls operand ++ calls) s) :
    Yields operation width (AddressingMode.absoluteJump.prelude access width ++ rest)
      (.holding R [] [] A M U false) post := by
  refine lastOperandBytes 1 (by decide) fun operand two => ?_
  exact construct (Construction.absolute_apply two) (onward operand two)

theorem absoluteCall
    (onward : ∀ (operand : List UInt8) (idle : UInt8), operand.length = 2 →
      Yields operation width rest
        (.holding (R.advance 1) operand []
          (.ofNat (R.dataBank.toNat * 0x10000 + littleEndian operand)) addressMask U false)
        fun calls s => post (R.operandCalls operand ++
          .fetch .program (R.advance 1).programAddress idle :: calls) s) :
    Yields operation width (AddressingMode.absoluteCall.prelude access width ++ rest)
      (.holding R [] [] A M U false) post := by
  refine lastOperandBytes 1 (by decide) fun operand two => ?_
  refine fetch rfl rfl (fun _ => rfl) fun idle => ?_
  exact construct (Construction.absolute_apply two) (onward operand idle two)

theorem absoluteIndexedIndirectJump
    (onward : ∀ (operand : List UInt8) (idle : UInt8) (pointer : List UInt8), operand.length = 2 →
      pointer.length = 2 →
        let P := R.programBank.toNat * 0x10000 + (littleEndian operand + R.x.toNat) % 0x10000
        Yields operation width rest
          (.holding (R.advance 1) operand pointer (.ofNat (Wrap.bank.after P 1)) bankMask U false)
          fun calls s => post (R.operandCalls operand ++
            .fetch .program (R.advance 1).programAddress idle ::
              (Event.fetches .data (fun i => .ofNat (Wrap.bank.after P i)) pointer ++ calls)) s) :
    Yields operation width (AddressingMode.absoluteIndexedIndirectJump.prelude access width ++ rest)
      (.holding R [] [] A M U false) post := by
  have bank := R.programBank.toNat_lt
  refine lastOperandBytes 1 (by decide) fun operand two => ?_
  refine fetch rfl rfl (fun _ => rfl) fun idle => ?_
  refine construct (Construction.absoluteIndexedIndirect_apply two) ?_
  refine bankPointer ?_ 1 (by decide) fun pointer asked => onward operand idle pointer two asked
  simp only [Registers.advance]
  omega

theorem indexedCallOpening
    (onward : ∀ low : UInt8, Yields operation width rest
      (.holding { R.advance 1 with s := R.s - 1 - 1 } [low] [] A M U false)
      fun calls s => post (.fetch .program R.programAddress low ::
        .store .stack R.s.toUInt32 ((R.pc + 1) >>> 8).toUInt8 ::
        .store .stack (R.s - 1).toUInt32 (R.pc + 1).toUInt8 :: calls) s) :
    Yields operation width
      (.cycle .fetchOperand :: .copy .pcToData :: .cycle .push :: .cycle .push :: rest)
      (.holding R [] [] A M U false) post := by
  refine fetchOperand (by decide) fun low => copy ?_
  rw [Copy.apply, Buffer.ofValue_word]
  exact push [_] _ (by simp) (push [] _ (by simp) (onward low))

theorem absoluteIndexedIndirectCall
    (onward : ∀ (low high idle : UInt8) (pointer : List UInt8), pointer.length = 2 →
      let P := R.programBank.toNat * 0x10000 +
        (littleEndian [low, high] + R.x.toNat) % 0x10000
      Yields operation width rest
        (.holding { R.advance 1 with s := R.s - 1 - 1 } [low, high] pointer
          (.ofNat (Wrap.bank.after P 1)) bankMask U false)
        fun calls s => post (.fetch .program R.programAddress low ::
          .store .stack R.s.toUInt32 ((R.pc + 1) >>> 8).toUInt8 ::
          .store .stack (R.s - 1).toUInt32 (R.pc + 1).toUInt8 ::
          .fetch .program (R.advance 1).programAddress high ::
          .fetch .program (R.advance 1).programAddress idle ::
            (Event.fetches .data (fun i => .ofNat (Wrap.bank.after P i)) pointer ++ calls)) s) :
    Yields operation width (AddressingMode.absoluteIndexedIndirectCall.prelude access width ++ rest)
      (.holding R [] [] A M U false) post := by
  have bank := R.programBank.toNat_lt
  refine indexedCallOpening fun low => fetchLastOperand (by simp) fun high => ?_
  refine fetch rfl rfl (fun _ => rfl) fun idle => ?_
  refine construct (Construction.absoluteIndexedIndirect_apply rfl) ?_
  refine bankPointer ?_ 1 (by decide) fun pointer asked => onward low high idle pointer asked
  simp only [Registers.advance]
  omega

theorem absoluteIndirectLongJump
    (onward : ∀ operand pointer : List UInt8, operand.length = 2 → pointer.length = 3 →
      Yields operation width rest
        (.holding (R.advance 1) operand pointer (.ofNat ((littleEndian operand + 2) % 0x10000))
          bankMask U false)
        fun calls s => post (R.operandCalls operand ++
          (Event.fetches .data (fun i => .ofNat ((littleEndian operand + i) % 0x10000)) pointer ++
            calls)) s) :
    Yields operation width (AddressingMode.absoluteIndirectLongJump.prelude access width ++ rest)
      (.holding R [] [] A M U false) post := by
  refine lastOperandBytes 1 (by decide) fun operand two => ?_
  have inside := littleEndian_lt operand
  rw [two] at inside
  refine construct (Construction.absoluteBankZero_apply two) ?_
  exact pointer inside 2 (by decide) fun bytes three => onward operand bytes two three

theorem absoluteIndirectJump
    (onward : ∀ operand pointer : List UInt8, operand.length = 2 → pointer.length = 2 →
      Yields operation width rest
        (.holding (R.advance 1) operand pointer (.ofNat ((littleEndian operand + 1) % 0x10000))
          bankMask U false)
        fun calls s => post (R.operandCalls operand ++
          (Event.fetches .data (fun i => .ofNat ((littleEndian operand + i) % 0x10000)) pointer ++
            calls)) s) :
    Yields operation width (AddressingMode.absoluteIndirectJump.prelude access width ++ rest)
      (.holding R [] [] A M U false) post := by
  refine lastOperandBytes 1 (by decide) fun operand two => ?_
  have inside := littleEndian_lt operand
  rw [two] at inside
  refine construct (Construction.absoluteBankZero_apply two) ?_
  exact pointer inside 1 (by decide) fun bytes asked => onward operand bytes two asked

theorem absoluteLongJump
    (onward : ∀ operand : List UInt8, operand.length = 3 → Yields operation width rest
      (.holding (R.advance 2) operand operand (.ofNat (littleEndian operand)) addressMask U false)
      fun calls s => post (R.operandCalls operand ++ calls) s) :
    Yields operation width (AddressingMode.absoluteLongJump.prelude access width ++ rest)
      (.holding R [] [] A M U false) post := by
  refine lastOperandBytes 2 (by decide) fun operand three => ?_
  exact construct (Construction.absoluteLong_apply three) (copy (onward operand three))

theorem longCallOpening
    (onward : ∀ low middle idle : UInt8, Yields operation width rest
      (.holding { R.advance 2 with s := R.s - 1 } [low, middle] [] A M U false)
      fun calls s => post (R.operandCalls [low, middle] ++
        .store .stack R.s.toUInt32 R.programBank :: .fetch .stack (R.s - 1).toUInt32 idle :: calls)
          s) :
    Yields operation width
      (.cycle .fetchOperand :: .cycle .fetchOperand :: .copy .programBankToData :: .cycle .push ::
        .cycle .idleStack :: rest)
      (.holding R [] [] A M U false) post := by
  refine operandBytes 2 (by decide) fun operand two => copy ?_
  obtain ⟨low, middle, rfl⟩ := List.length_eq_two.mp two
  rw [Copy.apply, Buffer.ofValue_byte]
  refine push [] _ (by simp) ?_
  exact fetch rfl rfl (fun _ => rfl) fun idle => onward low middle idle

theorem absoluteLongCall
    (onward : ∀ low middle idle bank : UInt8, Yields operation width rest
      (.holding { R.advance 2 with s := R.s - 1 } [low, middle, bank] []
        (.ofNat (littleEndian [low, middle, bank])) addressMask U false)
      fun calls s => post (R.operandCalls [low, middle] ++
        .store .stack R.s.toUInt32 R.programBank :: .fetch .stack (R.s - 1).toUInt32 idle ::
          .fetch .program (R.advance 2).programAddress bank :: calls) s) :
    Yields operation width (AddressingMode.absoluteLongCall.prelude access width ++ rest)
      (.holding R [] [] A M U false) post := by
  refine longCallOpening fun low middle idle => fetchLastOperand (by simp) fun bank => ?_
  exact construct (Construction.absoluteLong_apply rfl) (onward low middle idle bank)

theorem blockMove
    (onward : ∀ destination source byte first second : UInt8, Yields operation width rest
      (.holding (R.advance 2) [destination, source] [] (inBank destination R.y) M U false)
      fun calls s => post (R.operandCalls [destination, source] ++
        .fetch .data (inBank source R.x) byte :: .store .data (inBank destination R.y) byte ::
          .fetch .data (inBank destination R.y) first ::
            .fetch .data (inBank destination R.y) second :: calls) s) :
    Yields operation width (AddressingMode.blockMove.prelude access width ++ rest)
      (.holding R [] [] A M U false) post := by
  refine operandBytes 2 (by decide) fun operand two => ?_
  obtain ⟨destination, source, rfl⟩ := List.length_eq_two.mp two
  refine fetchSource fun byte => storeDestination ?_
  refine idleDestination fun first => idleDestination fun second => ?_
  exact onward destination source byte first second

end Yields

end Microcode
