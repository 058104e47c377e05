import Dimebox.RegisterViews

/-! A client that writes a register and reads it back.

    `P` decodes the value and stores it in the core: indices 1 to 30 in the general registers, 31 in
    the stack pointer, which is x2, and 32 in the PC of the core. `p` reads the first two from where
    `P` has put them, but the PC from the copy the server took when the core stopped. So 2 and 31 are
    one register, and a PC that was written is not what is read. -/

namespace Dimebox

namespace DebugServer

/-! ### The request -/

/-- The request to write `v` to register `n`. -/
def writeRequest (n : Nat) (v : U32) : List Char := 'P' :: (Text.hexPadded 1 n ++ '=' :: le4 v)

theorem not_mem_writeRequest {c : Char} (hP : c ≠ 'P') (heq : c ≠ '=')
    (hc : ∀ d < 16, Text.hexDigit d ≠ c) (n : Nat) (v : U32) : c ∉ writeRequest n v := by
  intro hmem
  rw [writeRequest, List.mem_cons, List.mem_append, List.mem_cons, le4, List.mem_flatMap] at hmem
  rcases hmem with h | h | h | ⟨i, -, h⟩
  · exact hP h
  · exact Text.not_mem_hexPadded hc 1 n h
  · exact heq h
  · exact Text.not_mem_hexPadded hc 2 _ h

theorem action_writeRequest (n : Nat) (v : U32) :
    Rsp.action (writeRequest n v) = .ok (some .writeRegister) :=
  action_of_byFirstChar rfl fun _ hname =>
    not_contains_name (not_mem_writeRequest (by decide) (by decide) (by decide) n v)
      (not_mem_writeRequest (by decide) (by decide) (by decide) n v) hname

/-! ### The value -/

/-- One byte, in its place. -/
theorem getLsbD_byte (v : U32) (k : Nat) {j : Nat} (hj : j < 32) :
    (((v >>> k) &&& 0xff) <<< k).getLsbD j = (decide (k ≤ j ∧ j < k + 8) && v.getLsbD j) := by
  have hmask : ∀ i : Fin 32, (0xff : U32).getLsbD i = decide ((i : Nat) < 8) := by decide
  have hlt : j - k < 32 := by omega
  rw [BitVec.getLsbD_shiftLeft, BitVec.getLsbD_and, BitVec.getLsbD_ushiftRight, hmask ⟨j - k, hlt⟩]
  by_cases hk : k ≤ j
  · have hadd : k + (j - k) = j := by omega
    have hbyte : j - k < 8 ↔ j < k + 8 := by omega
    simp [hj, hk, hadd, hbyte, Bool.and_comm]
  · simp [hk, Nat.lt_of_not_le hk]

/-- A value is its bytes. -/
theorem or_bytes (v : U32) : (0 : U32) ||| ((v >>> 0) &&& 0xff) <<< 0 ||| ((v >>> 8) &&& 0xff) <<< 8 |||
    ((v >>> 16) &&& 0xff) <<< 16 ||| ((v >>> 24) &&& 0xff) <<< 24 = v := by
  apply BitVec.eq_of_getLsbD_eq
  intro j hj
  rw [BitVec.getLsbD_or, BitVec.getLsbD_or, BitVec.getLsbD_or, BitVec.getLsbD_or,
    getLsbD_byte v 0 hj, getLsbD_byte v 8 hj, getLsbD_byte v 16 hj, getLsbD_byte v 24 hj]
  have h0 : (0 : U32).getLsbD j = false := BitVec.getLsbD_zero
  cases v.getLsbD j with
  | false => simp
  | true =>
    simp only [h0, Bool.false_or, Bool.and_true, Bool.or_eq_true, decide_eq_true_eq]
    omega

theorem decodedLe4_le4 (v : U32) : decodedLe4 (le4 v) = .ok (some v) := by
  have hbytes : le4 v = (List.range 4).flatMap fun i =>
      [Text.hexDigit (((v >>> (i * 8)) &&& 0xff).toNat / 16),
        Text.hexDigit (((v >>> (i * 8)) &&& 0xff).toNat % 16)] := by
    rw [le4]
    exact List.flatMap_congr fun i _ => Text.hexPadded_two (byteOf_lt v i)
  have hscan : ∀ i cs, Text.scanHex 2 (Text.hexDigit (((v >>> (i * 8)) &&& 0xff).toNat / 16) ::
      Text.hexDigit (((v >>> (i * 8)) &&& 0xff).toNat % 16) :: cs) =
      some (((v >>> (i * 8)) &&& 0xff).toNat, cs) := by
    intro i cs
    have hbyte := Text.scanHex_byte (byteOf_lt v i) cs
    rwa [Text.hexPadded_two (byteOf_lt v i)] at hbyte
  rw [hbytes, decodedLe4]
  have hrange : List.range 4 = [0, 1, 2, 3] := rfl
  simp only [hrange, List.flatMap_cons, List.flatMap_nil, List.append_nil, List.cons_append,
    List.nil_append, decodedPairs, List.drop, List.length_cons, List.length_nil, hscan]
  simp only [BitVec.ofNat_toNat, BitVec.setWidth_eq, Nat.reduceMul, Nat.reduceAdd, Nat.reduceLT,
    if_false, or_bytes]
  rfl

/-! ### Writing -/

/-- The session after `v` has been stored in register `n`. -/
def written (s : DebugSession) (n : Nat) (v : U32) : DebugSession :=
  { s with cpu :=
      if n < 31 then s.cpu.setReg (BitVec.ofNat 32 n) (v.setWidth 64)
      else if n = 31 then s.cpu.setSp (v.setWidth 64) else s.cpu.setPc (v.setWidth 64) }

theorem scan_writeRequest {n : Nat} (hn : n ≤ 32) (v : U32) :
    Text.scanHex (writeRequest n v).length ((writeRequest n v).drop 1) = some (n, '=' :: le4 v) := by
  have hlen : (Text.hexPadded 1 n).length ≤ (writeRequest n v).length := by
    simp only [writeRequest, List.length_cons, List.length_append]
    omega
  refine scan_index hn hlen ?_
  rintro c ⟨⟩
  decide

/-- The value is what follows the sign. -/
theorem find_writeRequest (n : Nat) (v : U32) :
    ∃ pos, Text.find '=' (writeRequest n v) = some pos ∧
      (writeRequest n v).drop (pos + 1) = le4 v := by
  have hbefore : ∀ c ∈ 'P' :: Text.hexPadded 1 n, c ≠ '=' := by
    rintro c hc rfl
    rcases List.mem_cons.mp hc with h | h
    · exact absurd h (by decide)
    · exact Text.not_mem_hexPadded (by decide) 1 n h
  refine ⟨('P' :: Text.hexPadded 1 n).length, ?_, ?_⟩
  · have hnone : ('P' :: Text.hexPadded 1 n).findIdx? (· = '=') = none := by
      rw [List.findIdx?_eq_none_iff]
      exact fun c hc => decide_eq_false (hbefore c hc)
    have hsome : ('=' :: le4 v).findIdx? (· = '=') = some 0 := rfl
    rw [Text.find, writeRequest, ← List.cons_append, List.findIdx?_append, hnone, hsome]
    simp
  · rw [writeRequest, ← List.cons_append, ← List.drop_drop, List.drop_left]
    rfl

theorem dispatch_writeRequest (s : DebugSession) {n : Nat} (hn : n ≤ 32) (v : U32) :
    (dispatch (writeRequest n v)).run s = .ok (Rsp.encode "OK".toList) (written s n v) := by
  refine dispatch_of_respond (by simp [writeRequest]) (action_writeRequest n v) ?_
  obtain ⟨pos, hpos, hdrop⟩ := find_writeRequest n v
  have hstore : ∀ (put : RiscvState → U64 → Except Fault RiscvState) (cpu : RiscvState),
      put s.cpu (v.setWidth 64) = .ok cpu →
      (storeRegister (writeRequest n v) pos put).run s = .ok "OK".toList { s with cpu } := by
    intro put cpu hput
    rw [storeRegister, EStateM.run_bind, hdrop, decodedLe4_le4, Effect.run_lift_ok]
    simp only [EStateM.run_bind, EStateM.run_get, hput, Effect.run_lift_ok]
    rfl
  rw [respond, writeRegister, scan_writeRequest hn, hpos]
  simp only
  rw [regType_index n hn, written]
  split_ifs with hgp hsp
  · exact hstore _ _ (RiscvState.setGp_eq _ (by simp only [BitVec.toNat_ofNat]; omega) _)
  · exact hstore _ _ rfl
  · exact hstore _ _ rfl

/-! ### Reading back -/

/-- Where register `n` is kept: the stack pointer is x2. -/
def slot (n : Nat) : Nat := if n = 31 then 2 else n

theorem slot_lt {n : Nat} (hn : n ≤ 31) : slot n < 32 := by
  rw [slot]
  split_ifs <;> omega

theorem index_of_gp {n : Nat} (h1 : 1 ≤ n) (hn : n < 31) :
    (BitVec.ofNat 32 n).toNat = n ∧ BitVec.ofNat 32 n ≠ 0 := by
  have hidx : (BitVec.ofNat 32 n).toNat = n := Nat.mod_eq_of_lt (by omega)
  refine ⟨hidx, fun hzero => ?_⟩
  rw [hzero] at hidx
  have h0 : BitVec.toNat (0 : U32) = 0 := rfl
  omega

theorem register_of_gp (s : DebugSession) {n : Nat} (h1 : 1 ≤ n) (hn : n ≤ 31) :
    register s n = s.cpu.x (Fin.ofNat 32 (slot n)) := by
  rw [register, slot]
  rcases Nat.lt_or_ge n 31 with hgp | hge
  · obtain ⟨hidx, hne⟩ := index_of_gp h1 hgp
    rw [if_pos hgp, if_neg (by omega), RiscvState.regVal, if_neg hne, hidx]
  · obtain rfl : n = 31 := by omega
    rfl

theorem written_of_gp (s : DebugSession) {n : Nat} (h1 : 1 ≤ n) (hn : n ≤ 31) (v : U32) :
    (written s n v).cpu.x = Function.update s.cpu.x (Fin.ofNat 32 (slot n)) (v.setWidth 64) := by
  rw [written, slot]
  rcases Nat.lt_or_ge n 31 with hgp | hge
  · obtain ⟨hidx, hne⟩ := index_of_gp h1 hgp
    simp only [if_pos hgp, if_neg (Nat.ne_of_lt hgp), RiscvState.setReg, if_neg hne, hidx]
  · obtain rfl : n = 31 := by omega
    rfl

theorem register_written_self (s : DebugSession) {n : Nat} (h1 : 1 ≤ n) (hn : n ≤ 31) (v : U32) :
    register (written s n v) n = v.setWidth 64 := by
  rw [register_of_gp _ h1 hn, written_of_gp s h1 hn, Function.update_self]

/-- A register kept elsewhere is what it was. -/
theorem register_written_of_slot_ne (s : DebugSession) {n m : Nat} (h1 : 1 ≤ n) (hn : n ≤ 31)
    (hm : m ≤ 32) (hslot : slot m ≠ slot n) (v : U32) :
    register (written s n v) m = register s m := by
  obtain rfl | rfl | ⟨hm1, hm31⟩ : m = 0 ∨ m = 32 ∨ 1 ≤ m ∧ m ≤ 31 := by omega
  · rfl
  · rfl
  · have hne : Fin.ofNat 32 (slot m) ≠ Fin.ofNat 32 (slot n) := by
      intro h
      have hval : slot m % 32 = slot n % 32 := congrArg Fin.val h
      rw [Nat.mod_eq_of_lt (slot_lt hm31), Nat.mod_eq_of_lt (slot_lt hn)] at hval
      exact hslot hval
    rw [register_of_gp _ hm1 hm31, register_of_gp _ hm1 hm31, written_of_gp s h1 hn,
      Function.update_of_ne hne]

/-- The core has its PC, the client sees the copy. -/
theorem register_written_pc (s : DebugSession) (m : Nat) (v : U32) :
    register (written s 32 v) m = register s m := rfl

/-- The write is answered, reads back as `v`, and leaves what the other registers read as. -/
def WritesFaithfully (s : DebugSession) (n : Nat) (v : U32) : Prop :=
  ∃ s', (dispatch (writeRequest n v)).run s = .ok (Rsp.encode "OK".toList) s' ∧
    viewOne s' n = some (le4 v) ∧ ∀ m ≤ 32, m ≠ n → viewOne s' m = viewOne s m

theorem viewOne_eq_iff {s t : DebugSession} {m : Nat} (hm : m ≤ 32) :
    viewOne t m = viewOne s m ↔ Alike (register t m) (register s m) := by
  rw [viewOne_eq t hm, viewOne_eq s hm, Option.some_inj, encodeRegisterValue_eq_iff, Alike]

theorem writesFaithfully_iff_register (s : DebugSession) {n : Nat} (hn : n ≤ 32) (v : U32) :
    WritesFaithfully s n v ↔ (register (written s n v) n).setWidth 32 = v ∧
      ∀ m ≤ 32, m ≠ n → Alike (register (written s n v) m) (register s m) := by
  have hself : viewOne (written s n v) n = some (le4 v) ↔
      (register (written s n v) n).setWidth 32 = v := by
    rw [viewOne_eq _ hn, Option.some_inj, encodeRegisterValue]
    exact ⟨le4_inj, fun h => by rw [h]⟩
  rw [WritesFaithfully]
  constructor
  · rintro ⟨s', hrun, hback, hothers⟩
    rw [dispatch_writeRequest s hn v] at hrun
    cases hrun
    exact ⟨hself.mp hback, fun m hm hne => (viewOne_eq_iff hm).mp (hothers m hm hne)⟩
  · rintro ⟨hback, hothers⟩
    exact ⟨_, dispatch_writeRequest s hn v, hself.mpr hback,
      fun m hm hne => (viewOne_eq_iff hm).mpr (hothers m hm hne)⟩

/-- For every core state, every register and every value: the write is faithful if and only if it
    leaves x2, if it is to x2 by either of its numbers, and is what the client saw before, if it is to
    the PC. -/
theorem register_write_faithful_iff (s : DebugSession) (n : Nat) (v : U32) (h1 : 1 ≤ n) (hn : n ≤ 32) :
    WritesFaithfully s n v ↔
      (n = 2 ∨ n = 31 → (s.cpu.x 2).setWidth 32 = v) ∧ (n = 32 → s.pc.setWidth 32 = v) := by
  rw [writesFaithfully_iff_register s hn]
  rcases Nat.lt_or_ge 31 n with hpc | hgp
  · obtain rfl : n = 32 := by omega
    constructor
    · rintro ⟨hback, -⟩
      exact ⟨fun h => by omega, fun _ => hback⟩
    · rintro ⟨-, hcopy⟩
      exact ⟨hcopy rfl, fun m _ _ => congrArg _ (register_written_pc s m v)⟩
  · rw [register_written_self s h1 hgp]
    have hwidth : (v.setWidth 64).setWidth 32 = v := by simp
    constructor
    · rintro ⟨-, hothers⟩
      refine ⟨?_, fun h => by omega⟩
      -- each number of x2 shows what was written to the other
      rintro (rfl | rfl)
      · exact (hothers 31 (by decide) (by decide)).symm.trans hwidth
      · exact (hothers 2 (by decide) (by decide)).symm.trans hwidth
    · rintro ⟨hsp, -⟩
      refine ⟨hwidth, fun m hm hne => ?_⟩
      by_cases hslot : slot m = slot n
      · have hx2 : (n = 2 ∨ n = 31) ∧ 1 ≤ m ∧ m ≤ 31 ∧ slot n = 2 := by
          rw [slot, slot] at *
          split_ifs at * <;> omega
        obtain ⟨hn2, hm1, hm31, hat2⟩ := hx2
        rw [Alike, register_of_gp _ hm1 hm31, register_of_gp _ hm1 hm31, hslot,
          written_of_gp s h1 hgp, Function.update_self, hwidth, hat2]
        exact (hsp hn2).symm
      · rw [register_written_of_slot_ne s h1 hgp hm hslot]
        rfl

theorem write_sevens_faithful : WritesFaithfully sevens 5 1 ∧ ¬ WritesFaithfully sevens 31 1 := by
  constructor
  · exact (register_write_faithful_iff sevens 5 1 (by decide) (by decide)).mpr
      ⟨by decide, by decide⟩
  · intro h
    exact absurd (((register_write_faithful_iff sevens 31 1 (by decide) (by decide)).mp h).1
      (.inr rfl)) (by decide)

/-- The PC reads back as it was before it was written. -/
theorem written_pc_unseen : (dispatch (writeRequest 32 1)).run sevens =
      .ok (Rsp.encode "OK".toList) (written sevens 32 1) ∧
    viewOne (written sevens 32 1) 32 = some "07000000".toList ∧ ¬ WritesFaithfully sevens 32 1 := by
  have hback : viewOne (written sevens 32 1) 32 = some "07000000".toList := by
    rw [viewOne_eq _ (by decide)]
    decide
  refine ⟨dispatch_writeRequest sevens (by decide) 1, hback, ?_⟩
  rw [writesFaithfully_iff_register sevens (by decide)]
  rintro ⟨h, -⟩
  exact absurd h (by decide)

end DebugServer

end Dimebox
