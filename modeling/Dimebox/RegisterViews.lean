import Dimebox.RequestFields
import Dimebox.Framing
import Dimebox.StepLaws

/-! How a client sees the registers.

    The client numbers the registers 0 to 32. It gets them all with `g`, one of them with `p`, and
    some with a stop reply. `RegType` numbers x0 to x30, SP and PC, and `p` and the stop reply go by
    it; but `g` starts with x1, so that its field n is x(n + 1) and there is no field 32, and a stop
    reply sends x8 as register 29. The views agree where the registers they mix up happen to be
    equal. -/

namespace Dimebox

namespace DebugServer

/-! ### Encoded values -/

theorem byteOf_lt (rv : U32) (i : Nat) : ((rv >>> (i * 8)) &&& 0xff).toNat < 256 := by
  rw [BitVec.toNat_and]
  exact Nat.lt_of_le_of_lt Nat.and_le_right (by decide)

theorem length_hexByte (rv : U32) (i : Nat) :
    (Text.hexPadded 2 ((rv >>> (i * 8)) &&& 0xff).toNat).length = 2 := by
  rw [Text.hexPadded_two (byteOf_lt rv i)]
  rfl

theorem length_encodeRegisterValue (v : U64) : (encodeRegisterValue v).length = 8 := by
  rw [encodeRegisterValue, le4, List.length_flatMap]
  simp only [length_hexByte]
  rfl

theorem byteOf_toNat (rv : U32) (i : Nat) :
    ((rv >>> (i * 8)) &&& 0xff).toNat = rv.toNat / 2 ^ (i * 8) % 256 := by
  rw [BitVec.toNat_and, BitVec.toNat_ushiftRight, Nat.shiftRight_eq_div_pow]
  exact Nat.and_two_pow_sub_one_eq_mod _ 8

/-- Four bytes determine a value. -/
theorem le4_inj {v w : U32} (h : le4 v = le4 w) : v = w := by
  have hbytes : ∀ i < 4, v.toNat / 2 ^ (i * 8) % 256 = w.toNat / 2 ^ (i * 8) % 256 := by
    have hrange : List.range 4 = [0, 1, 2, 3] := rfl
    rw [le4, le4, hrange] at h
    simp only [List.flatMap_cons, List.flatMap_nil, List.append_nil] at h
    obtain ⟨h0, h⟩ := List.append_inj h (by rw [length_hexByte, length_hexByte])
    obtain ⟨h1, h⟩ := List.append_inj h (by rw [length_hexByte, length_hexByte])
    obtain ⟨h2, h3⟩ := List.append_inj h (by rw [length_hexByte, length_hexByte])
    have hbyte : ∀ i, Text.hexPadded 2 ((v >>> (i * 8)) &&& 0xff).toNat =
        Text.hexPadded 2 ((w >>> (i * 8)) &&& 0xff).toNat →
        v.toNat / 2 ^ (i * 8) % 256 = w.toNat / 2 ^ (i * 8) % 256 := by
      intro i hi
      rw [← byteOf_toNat, ← byteOf_toNat]
      exact Text.hexPadded_two_inj (byteOf_lt v i) (byteOf_lt w i) hi
    intro i hi
    match i, hi with
    | 0, _ => exact hbyte 0 h0
    | 1, _ => exact hbyte 1 h1
    | 2, _ => exact hbyte 2 h2
    | 3, _ => exact hbyte 3 h3
  have h0 := hbytes 0 (by decide)
  have h1 := hbytes 1 (by decide)
  have h2 := hbytes 2 (by decide)
  have h3 := hbytes 3 (by decide)
  simp only [Nat.reduceMul, Nat.reducePow] at h0 h1 h2 h3
  have hv := v.isLt
  have hw := w.isLt
  exact BitVec.eq_of_toNat_eq (by omega)

/-- Two registers are shown alike if their lower halves are equal. -/
theorem encodeRegisterValue_eq_iff {v w : U64} :
    encodeRegisterValue v = encodeRegisterValue w ↔ v.setWidth 32 = w.setWidth 32 :=
  ⟨le4_inj, fun h => by rw [encodeRegisterValue, encodeRegisterValue, h]⟩

/-! ### The views -/

/-- The payload of a packet. -/
def payload (packet : List Char) : List Char := (packet.drop 1).take (packet.length - 4)

theorem payload_encode (src : List Char) : payload (Rsp.encode src) = src := by
  rw [payload, Rsp.encode, Text.hexPadded_two (Rsp.checksum_lt src)]
  simp

/-- The packet the server answers a request with. -/
def answer (s : DebugSession) (pdata : List Char) : Option (List Char) :=
  Effect.result ((dispatch pdata).run s)

/-- Field `n` of the answer to `g`. -/
def viewAll (s : DebugSession) (n : Nat) : Option (List Char) :=
  (answer s "g".toList).map fun packet => ((payload packet).drop (8 * n)).take 8

/-- The answer to `p n`. -/
def viewOne (s : DebugSession) (n : Nat) : Option (List Char) :=
  (answer s ('p' :: Text.hexPadded 1 n)).map payload

/-- The registers in a stop reply. -/
def stopPairs (cpu : RiscvState) (pc : U64) : List (Nat × U64) :=
  [(0x1d, cpu.fp), (0x1f, cpu.sp), (0x20, pc)]

theorem stopReply_eq (cpu : RiscvState) (pc : U64) :
    stopReply cpu pc = Rsp.encode ("T02".toList ++ (stopPairs cpu pc).flatMap fun r =>
      Text.hexPadded 2 r.1 ++ ":".toList ++ encodeRegisterValue r.2 ++ ";".toList) := by
  have hfp : Text.hexPadded 2 0x1d = "1d".toList := by decide
  have hsp : Text.hexPadded 2 0x1f = "1f".toList := by decide
  have hpc : Text.hexPadded 2 0x20 = "20".toList := by decide
  rw [stopReply, stopPairs, List.flatMap_cons, List.flatMap_cons, List.flatMap_singleton, hfp, hsp,
    hpc]
  simp

/-- Every view shows register `n` as `digits`; register 32 is the address of the next instruction. -/
structure Shows (s : DebugSession) (n : Nat) (digits : List Char) : Prop where
  length : digits.length = 8
  all : viewAll s n = some digits
  one : viewOne s n = some digits
  stop : ∀ v, (n, v) ∈ stopPairs s.cpu s.pc → encodeRegisterValue v = digits
  next : n = 32 → digits = encodeRegisterValue s.cpu.pc

/-! ### What the views show -/

theorem answer_of_respond {pdata text : List Char} {a : Option Rsp.Action} {s s' : DebugSession}
    (hne : pdata ≠ []) (ha : Rsp.action pdata = .ok a) (h : (respond pdata a).run s = .ok text s') :
    answer s pdata = some (Rsp.encode text) := by
  rw [answer, dispatch_of_respond hne ha h]
  rfl

/-- The fields of the answer to `g`. -/
def fields (s : DebugSession) : List U64 :=
  (List.range' 1 30).map (fun i => s.cpu.regVal (BitVec.ofNat 32 i)) ++ [s.cpu.sp, s.pc]

theorem field_flatten {chunks : List (List Char)} (h : ∀ c ∈ chunks, c.length = 8) (n : Nat) :
    (chunks.flatten.drop (8 * n)).take 8 = chunks[n]?.getD [] := by
  induction chunks generalizing n with
  | nil => simp
  | cons c chunks ih =>
    have hc := h c List.mem_cons_self
    cases n with
    | zero =>
      rw [List.flatten_cons, Nat.mul_zero, List.drop_zero, ← hc, List.take_left]
      rfl
    | succ n =>
      have hdrop : (c ++ chunks.flatten).drop (8 * (n + 1)) = chunks.flatten.drop (8 * n) := by
        rw [Nat.mul_succ, Nat.add_comm, ← List.drop_drop, ← hc, List.drop_left]
      rw [List.flatten_cons, hdrop, ih fun c hc => h c (List.mem_cons_of_mem _ hc)]
      rfl

theorem viewAll_eq (s : DebugSession) (n : Nat) :
    viewAll s n = some (((fields s)[n]?.map encodeRegisterValue).getD []) := by
  have hrun : (respond "g".toList (some .readGpRegisters)).run s =
      .ok ((fields s).map encodeRegisterValue).flatten s := by
    have hregs : (List.range' 1 30).map (fun i =>
        encodeRegisterValue ((s.cpu.gp (BitVec.ofNat 32 i)).toOption.getD 0)) =
        (List.range' 1 30).map fun i =>
          encodeRegisterValue (s.cpu.regVal (BitVec.ofNat 32 i)) := by
      refine List.map_congr_left fun i hi => ?_
      rw [List.mem_range'_1] at hi
      rw [RiscvState.gp_eq s.cpu (by simp only [BitVec.toNat_ofNat]; omega)]
      rfl
    have htext : (readGpRegisters : DebugM _).run s = .ok (((List.range' 1 30).map fun i =>
        encodeRegisterValue ((s.cpu.gp (BitVec.ofNat 32 i)).toOption.getD 0)).flatten ++
          encodeRegisterValue s.cpu.sp ++ encodeRegisterValue s.pc) s := rfl
    rw [respond, htext, hregs, fields]
    simp [Function.comp_def]
  have hlen : ∀ c ∈ (fields s).map encodeRegisterValue, c.length = 8 := by
    intro c hc
    obtain ⟨v, -, rfl⟩ := List.mem_map.mp hc
    exact length_encodeRegisterValue v
  rw [viewAll, answer_of_respond (by decide) (by decide) hrun, Option.map_some, payload_encode,
    field_flatten hlen, List.getElem?_map]

/-- What `p n` shows. -/
def register (s : DebugSession) (n : Nat) : U64 :=
  if n < 31 then s.cpu.regVal (BitVec.ofNat 32 n) else if n = 31 then s.cpu.sp else s.pc

theorem action_readRegister (n : Nat) :
    Rsp.action ('p' :: Text.hexPadded 1 n) = .ok (some .readRegister) := by
  have hnot : ∀ c : Char, c ≠ 'p' → (∀ d < 16, Text.hexDigit d ≠ c) →
      c ∉ 'p' :: Text.hexPadded 1 n := by
    intro c hp hc hmem
    rcases List.mem_cons.mp hmem with h | h
    · exact hp h
    · exact Text.not_mem_hexPadded hc 1 n h
  exact action_of_byFirstChar rfl fun name hname =>
    not_contains_name (hnot 'q' (by decide) (by decide)) (hnot 'v' (by decide) (by decide)) hname

/-! ### One register -/

theorem regType_index : ∀ n ≤ 32, regType (BitVec.ofNat 32 n) =
    if n < 31 then .gpReg else if n = 31 then .spReg else .pcReg := by decide

/-- The index is scanned up to what is no digit. -/
theorem scan_index {n : Nat} (hn : n ≤ 32) {w : Nat} {cs : List Char}
    (hw : (Text.hexPadded 1 n).length ≤ w)
    (hend : ∀ c ∈ cs.head?, Text.hexValue c = none ∧ c ≠ 'x' ∧ c ≠ 'X') :
    Text.scanHex w (Text.hexPadded 1 n ++ cs) = some (n, cs) :=
  Text.scanHex_run (Text.spells_hexPadded 0 (by omega)) (by omega) hw (.inr hend)

theorem viewOne_eq (s : DebugSession) {n : Nat} (hn : n ≤ 32) :
    viewOne s n = some (encodeRegisterValue (register s n)) := by
  have hscan : Text.scanHex ('p' :: Text.hexPadded 1 n).length (Text.hexPadded 1 n) =
      some (n, []) := by
    have hrun := @scan_index n hn _ [] (Nat.le_succ _) (by simp)
    rwa [List.append_nil] at hrun
  have hrun : (respond ('p' :: Text.hexPadded 1 n) (some .readRegister)).run s =
      .ok (encodeRegisterValue (register s n)) s := by
    rw [respond, readRegister, EStateM.run_bind, EStateM.run_get]
    dsimp only
    rw [List.drop_one, List.tail_cons, hscan]
    dsimp only
    rw [regType_index n hn, register]
    split_ifs with hgp hsp
    · dsimp only
      rw [RiscvState.gp_eq s.cpu (by simp only [BitVec.toNat_ofNat]; omega)]
      rfl
    · rfl
    · rfl
  rw [viewOne, answer_of_respond (by simp) (action_readRegister n) hrun, Option.map_some,
    payload_encode]

/-! ### Where the views agree -/

/-- The values are shown alike. -/
def Alike (v w : U64) : Prop := v.setWidth 32 = w.setWidth 32

/-- The registers that the views of register `n` mix up are alike. -/
def MixedAlike (s : DebugSession) (n : Nat) : Prop :=
  n ≤ 29 ∧ Alike (s.cpu.regVal (BitVec.ofNat 32 (n + 1))) (s.cpu.regVal (BitVec.ofNat 32 n)) ∧
      (n = 29 → Alike s.cpu.fp (s.cpu.regVal 29)) ∨
    n = 30 ∧ Alike s.cpu.sp (s.cpu.regVal 30) ∨
    n = 31 ∧ Alike s.pc s.cpu.sp

theorem fields_getElem (s : DebugSession) (n : Nat) : (fields s)[n]? =
    if n < 30 then some (s.cpu.regVal (BitVec.ofNat 32 (n + 1)))
    else if n = 30 then some s.cpu.sp else if n = 31 then some s.pc else none := by
  rw [fields, List.getElem?_append, List.length_map, List.length_range']
  split_ifs with hgp hsp hpc
  · rw [List.getElem?_map, List.getElem?_range' hgp, Nat.one_mul, Nat.add_comm]
    rfl
  · rw [hsp]; rfl
  · rw [hpc]; rfl
  · exact List.getElem?_eq_none (by simp only [List.length_cons, List.length_nil]; omega)

/-- What is in a stop reply about register `n`. -/
theorem mem_stopPairs {cpu : RiscvState} {pc v : U64} {n : Nat} :
    (n, v) ∈ stopPairs cpu pc ↔ n = 29 ∧ v = cpu.fp ∨ n = 31 ∧ v = cpu.sp ∨ n = 32 ∧ v = pc := by
  simp [stopPairs]

/-- The views agree if what each of them shows is alike. -/
theorem shows_iff_alike (s : DebugSession) {n : Nat} (hn : n ≤ 32) :
    (∃ digits, Shows s n digits) ↔ (∃ v, (fields s)[n]? = some v ∧ Alike v (register s n)) ∧
      (∀ v, (n, v) ∈ stopPairs s.cpu s.pc → Alike v (register s n)) ∧
      (n = 32 → Alike (register s n) s.cpu.pc) := by
  constructor
  · rintro ⟨digits, hlen, hall, hone, hstop, hnext⟩
    rw [viewAll_eq] at hall
    rw [viewOne_eq s hn] at hone
    have hdigits : encodeRegisterValue (register s n) = digits := Option.some.inj hone
    have hfield := Option.some.inj hall
    refine ⟨?_, fun v hv => ?_, fun h32 => ?_⟩
    · cases hf : (fields s)[n]? with
      | none =>
        rw [hf] at hfield
        rw [← hfield] at hlen
        cases hlen
      | some v =>
        rw [hf, Option.map_some, Option.getD_some] at hfield
        exact ⟨v, rfl, encodeRegisterValue_eq_iff.mp (hfield.trans hdigits.symm)⟩
    · exact encodeRegisterValue_eq_iff.mp ((hstop v hv).trans hdigits.symm)
    · exact encodeRegisterValue_eq_iff.mp (hdigits.trans (hnext h32))
  · rintro ⟨⟨v, hf, hv⟩, hstop, hnext⟩
    refine ⟨_, length_encodeRegisterValue (register s n), ?_, viewOne_eq s hn, ?_, ?_⟩
    · rw [viewAll_eq, hf, Option.map_some, Option.getD_some, encodeRegisterValue_eq_iff.mpr hv]
    · exact fun v hv => encodeRegisterValue_eq_iff.mpr (hstop v hv)
    · exact fun h32 => encodeRegisterValue_eq_iff.mpr (hnext h32)

/-- For every core state and every register: the views agree if and only if the registers they mix up
    are alike. -/
theorem register_views_agree_iff (s : DebugSession) (n : Nat) (hn : n ≤ 32) :
    (∃ digits, Shows s n digits) ↔ MixedAlike s n := by
  rw [shows_iff_alike s hn, fields_getElem, MixedAlike]
  simp only [mem_stopPairs]
  rcases Nat.lt_or_ge n 30 with hgp | hge
  · have hreg : register s n = s.cpu.regVal (BitVec.ofNat 32 n) := if_pos (by omega)
    rw [if_pos hgp, hreg]
    constructor
    · rintro ⟨⟨v, hv, halike⟩, hstop, -⟩
      cases hv
      refine .inl ⟨by omega, halike, fun h29 => ?_⟩
      subst h29
      exact hstop _ (.inl ⟨rfl, rfl⟩)
    · rintro (⟨-, halike, hfp⟩ | ⟨h, -⟩ | ⟨h, -⟩)
      · refine ⟨⟨_, rfl, halike⟩, fun v hv => ?_, fun h => by omega⟩
        rcases hv with ⟨rfl, rfl⟩ | ⟨h, -⟩ | ⟨h, -⟩
        · exact hfp rfl
        · omega
        · omega
      · omega
      · omega
  · rw [if_neg (by omega)]
    obtain rfl | rfl | rfl : n = 30 ∨ n = 31 ∨ n = 32 := by omega
    · have hreg : register s 30 = s.cpu.regVal 30 := rfl
      rw [if_pos rfl, hreg]
      simp
    · have hreg : register s 31 = s.cpu.sp := rfl
      rw [if_neg (by decide), if_pos rfl, hreg]
      simp [Alike]
    · -- the answer to `g` has no field 32
      rw [if_neg (by decide), if_neg (by decide)]
      simp

/-- A core whose registers are all 7, at address 7. -/
def sevens : DebugSession where
  server := { core := 0 }
  cpu := { x := fun _ => 7, pc := 7 }
  memory := { physMem := { oracle := { rand := fun _ => 0, heap := fun _ => 0 } } }
  pc := 7

theorem sevens_views_agree : MixedAlike sevens 29 ∧ ∃ digits, Shows sevens 29 digits := by
  have hmixed : MixedAlike sevens 29 := .inl ⟨by decide, rfl, fun _ => rfl⟩
  exact ⟨hmixed, (register_views_agree_iff sevens 29 (by decide)).mpr hmixed⟩

/-- A core with 1 in x1 and 2 in x2. -/
def oneTwo : DebugSession :=
  { sevens with cpu := { x := fun i => if i = 1 then 1 else if i = 2 then 2 else 0, pc := 7 } }

/-- Field 1 of `g` is x2, while `p1` answers with x1. -/
theorem register_views_disagree :
    viewAll oneTwo 1 = some "02000000".toList ∧ viewOne oneTwo 1 = some "01000000".toList ∧
      ¬ ∃ digits, Shows oneTwo 1 digits := by
  have hall : viewAll oneTwo 1 = some "02000000".toList := by
    rw [viewAll_eq, fields_getElem]
    decide
  have hone : viewOne oneTwo 1 = some "01000000".toList := by
    rw [viewOne_eq oneTwo (by decide)]
    decide
  refine ⟨hall, hone, fun ⟨digits, hshows⟩ => ?_⟩
  have heq := hall.symm.trans (hshows.all.trans (hshows.one.symm.trans hone))
  exact absurd heq (by decide)

end DebugServer

end Dimebox
