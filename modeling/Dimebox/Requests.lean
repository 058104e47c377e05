import Dimebox.ClientAccess
import Dimebox.RequestFields
import Dimebox.RegisterViews

/-! Whether a request can break the debug server.

    The handlers of `m`, `M`, `p`, `P` and `Z` refuse with an `E` text what they find wrong, and
    otherwise do what was asked. Some requests are neither refused nor served: an exception or an
    undefined evaluation gets out, the answer is `OK` although nothing or something else was done, or
    the answer is `E0` but the read has initialised the bytes. The requests that do no harm are those
    that can be done, and those that are refused for a reason the handler has. -/

namespace Dimebox

namespace DebugServer

/-! ### Serving and refusing -/

/-- Registers, memory and breakpoints are the same. -/
structure Unchanged (s s' : DebugSession) : Prop where
  cpu : s'.cpu = s.cpu
  pc : s'.pc = s.pc
  memory : Memory.SameContents s.memory s'.memory
  instrBreakpoints : s'.server.instrBreakpoints = s.server.instrBreakpoints
  dataBreakpoints : s'.server.dataBreakpoints = s.server.dataBreakpoints

theorem Unchanged.refl (s : DebugSession) : Unchanged s s := ⟨rfl, rfl, .refl _, rfl, rfl⟩

/-- The request is well formed and can be done: its numbers fit, its data is complete, the register
    exists, the address is readable or writable, the type of the breakpoint is known. -/
def Serviceable (s : DebugSession) (pdata : List Char) : Option Rsp.Action → Prop
  | some .readMemory => ∃ maddr msize, memoryFields pdata = some (maddr, msize) ∧
      s.memory.Valid (BitVec.ofNat 64 maddr) msize ∧ s.memory.Takes (BitVec.ofNat 64 maddr) msize ∧
      s.memory.Initialised (BitVec.ofNat 64 maddr) msize
  | some .writeMemory => ∃ maddr msize pos, memoryFields pdata = some (maddr, msize) ∧
      Text.find ':' pdata = some pos ∧ Complete pdata pos msize.toNat ∧
      s.memory.Valid (BitVec.ofNat 64 maddr) msize ∧ s.memory.Takes (BitVec.ofNat 64 maddr) msize
  | some .readRegister => ∃ n, registerField pdata = some n ∧ n ≤ 32
  | some .writeRegister => ∃ n pos, registerField pdata = some n ∧ n ≤ 32 ∧
      Text.find '=' pdata = some pos ∧ Complete pdata pos 4
  | some .setBreakpoint => ∃ btype maddr msize,
      breakpointFields pdata = some (btype, maddr, msize) ∧ (btype = 0 ∨ btype = 2) ∧
      intOf msize = msize
  | _ => True

/-- The handler has a reason to refuse: a field is missing, the register does not exist, a byte
    does not scan, or the access is refused. Sizes and register numbers are what got stored. -/
def Refused (s : DebugSession) (pdata : List Char) : Option Rsp.Action → Prop
  | some .readMemory => ∀ maddr msize, memoryFields pdata = some (maddr, msize) →
      0 ≤ intOf msize ∧ ¬ (s.memory.Valid (BitVec.ofNat 64 maddr) (intOf msize) ∧
        s.memory.Takes (BitVec.ofNat 64 maddr) (intOf msize))
  | some .writeMemory => ∀ maddr msize pos, memoryFields pdata = some (maddr, msize) →
      Text.find ':' pdata = some pos → 0 ≤ intOf msize ∧
        ((∃ k < (intOf msize).toNat, pos + 1 + 2 * k ≤ pdata.length ∧
            digitPair pdata pos k = none ∧ Scans pdata pos k) ∨
          Scans pdata pos (intOf msize).toNat ∧
            ¬ s.memory.Valid (BitVec.ofNat 64 maddr) (intOf msize))
  | some .readRegister => ∀ n, registerField pdata = some n → 32 < n % 2 ^ 32
  | some .writeRegister => ∀ n pos, registerField pdata = some n → Text.find '=' pdata = some pos →
      32 < n % 2 ^ 32 ∨ pos + 7 ≤ pdata.length ∧ ¬ Scans pdata pos 4
  | some .setBreakpoint => breakpointFields pdata = none
  | _ => False

/-- The answer is an `E` text, and nothing has changed. -/
def Refuses (s : DebugSession) (r : EStateM.Result Fault DebugSession (List Char)) : Prop :=
  ∃ text s', r = .ok text s' ∧ text.head? = some 'E' ∧ Unchanged s s'

/-- There is an answer, and it is not an `E` text. -/
def Serves (r : EStateM.Result Fault DebugSession (List Char)) : Prop :=
  ∃ text s', r = .ok text s' ∧ text.head? ≠ some 'E'

/-- A handler refuses what it has a reason to refuse and nothing else, and serves what can be
    done. -/
def Handles (s : DebugSession) (pdata : List Char) (a : Option Rsp.Action)
    (r : EStateM.Result Fault DebugSession (List Char)) : Prop :=
  Refused s pdata a ∧ Refuses s r ∨
    ¬ Refused s pdata a ∧ ¬ Refuses s r ∧ (Serviceable s pdata a → Serves r)

section Outcomes

variable {s s' : DebugSession} {pdata text : List Char} {a : Option Rsp.Action}
  {r : EStateM.Result Fault DebugSession (List Char)}

theorem handles_refused (hr : r = .ok text s) (htext : text.head? = some 'E')
    (h : Refused s pdata a) : Handles s pdata a r :=
  .inl ⟨h, text, s, hr, htext, .refl s⟩

theorem handles_served (hr : r = .ok text s') (htext : text.head? ≠ some 'E')
    (h : ¬ Refused s pdata a) : Handles s pdata a r := by
  refine .inr ⟨h, fun ⟨text', s'', hr', hE, _⟩ => ?_, fun _ => ⟨text, s', hr, htext⟩⟩
  rw [hr] at hr'
  cases hr'
  exact htext hE

theorem handles_thrown {f : Fault} (hr : r = .error f s') (h : ¬ Refused s pdata a)
    (h' : ¬ Serviceable s pdata a) : Handles s pdata a r := by
  refine .inr ⟨h, fun ⟨text', s'', hr', _⟩ => ?_, fun hs => absurd hs h'⟩
  rw [hr] at hr'
  cases hr'

end Outcomes

/-! ### The handlers -/

theorem head_ne_of_not_mem {text : List Char} (h : 'E' ∉ text) : text.head? ≠ some 'E' :=
  fun hE => h (List.mem_of_mem_head? hE)

theorem head_encodeRegisterValue (v : U64) : (encodeRegisterValue v).head? ≠ some 'E' :=
  head_ne_of_not_mem (not_mem_encodeRegisterValue (by decide) v)

theorem regType_ofNat (n : Nat) : regType (BitVec.ofNat 32 n) =
    if n % 2 ^ 32 < 31 then .gpReg else if n % 2 ^ 32 = 31 then .spReg
    else if n % 2 ^ 32 = 32 then .pcReg else .badReg := by
  have hlt : BitVec.ofNat 32 n < 31 ↔ n % 2 ^ 32 < 31 := by
    rw [BitVec.lt_def, BitVec.toNat_ofNat]
    rfl
  have heq : ∀ k : Nat, k < 2 ^ 32 → (BitVec.ofNat 32 n = BitVec.ofNat 32 k ↔ n % 2 ^ 32 = k) := by
    intro k hk
    rw [BitVec.toNat_eq, BitVec.toNat_ofNat, BitVec.toNat_ofNat, Nat.mod_eq_of_lt hk]
  have h31 := heq 31 (by decide)
  have h32 := heq 32 (by decide)
  rw [regType]
  simp only [hlt]
  split_ifs <;> first | rfl | simp_all

theorem handles_readRegister (s : DebugSession) (pdata : List Char) :
    Handles s pdata (some .readRegister) ((readRegister pdata).run s) := by
  rw [readRegister, EStateM.run_bind, EStateM.run_get]
  dsimp only
  cases hscan : Text.scanHex pdata.length (pdata.drop 1) with
  | none =>
    refine handles_refused rfl rfl fun n hn => ?_
    rw [registerField, hscan] at hn
    cases hn
  | some f =>
    have hfield : registerField pdata = some f.1 := by rw [registerField, hscan]; rfl
    dsimp only
    rw [regType_ofNat]
    split_ifs with hgp hsp hpc
    · dsimp only
      rw [RiscvState.gp_eq s.cpu (by rw [BitVec.toNat_ofNat]; omega)]
      refine handles_served rfl (head_encodeRegisterValue _) fun h => ?_
      have := h _ hfield
      omega
    · refine handles_served rfl (head_encodeRegisterValue _) fun h => ?_
      have := h _ hfield
      omega
    · refine handles_served rfl (head_encodeRegisterValue _) fun h => ?_
      have := h _ hfield
      omega
    · refine handles_refused rfl rfl fun n hn => ?_
      rw [hfield] at hn
      cases hn
      omega

/-- The value after the `=` is stored, or it is refused, or it is too short. -/
theorem handles_storeRegister {s : DebugSession} {pdata : List Char} {n pos : Nat}
    (hfield : registerField pdata = some n) (hpos : Text.find '=' pdata = some pos)
    (hn : n % 2 ^ 32 ≤ 32) {put : RiscvState → U64 → Except Fault RiscvState}
    (hput : ∀ v, ∃ cpu, put s.cpu v = .ok cpu) :
    Handles s pdata (some .writeRegister) ((storeRegister pdata pos put).run s) := by
  have hreason : Refused s pdata (some .writeRegister) →
      pos + 7 ≤ pdata.length ∧ ¬ Scans pdata pos 4 := by
    intro h
    rcases h n pos hfield hpos with hlt | h
    · omega
    · exact h
  have hcomplete : Serviceable s pdata (some .writeRegister) → Complete pdata pos 4 := by
    rintro ⟨_, pos', -, -, hpos', hc⟩
    rw [hpos] at hpos'
    cases hpos'
    exact hc
  rw [storeRegister, EStateM.run_bind]
  by_cases hlen : pdata.length < pos + 7
  · rw [decodedLe4_short hlen, Effect.run_lift_error]
    refine handles_thrown rfl (fun h => ?_) fun h => ?_
    · have := (hreason h).1
      omega
    · have := (hcomplete h).length
      omega
  · rcases decodedLe4_ok (Nat.le_of_not_lt hlen) with ⟨hscans, rval, hrun⟩ | ⟨hscans, hrun⟩
    · obtain ⟨cpu, hcpu⟩ := hput (rval.setWidth 64)
      rw [hrun, Effect.run_lift_ok]
      dsimp only
      rw [EStateM.run_bind, EStateM.run_get]
      dsimp only
      rw [EStateM.run_bind, hcpu, Effect.run_lift_ok]
      exact handles_served rfl (by decide) fun h => (hreason h).2 hscans
    · rw [hrun, Effect.run_lift_ok]
      refine handles_refused rfl rfl fun _ pos' _ hpos' => ?_
      rw [hpos] at hpos'
      cases hpos'
      exact .inr ⟨Nat.le_of_not_lt hlen, hscans⟩

theorem handles_writeRegister (s : DebugSession) (pdata : List Char) :
    Handles s pdata (some .writeRegister) ((writeRegister pdata).run s) := by
  rw [writeRegister]
  cases hscan : Text.scanHex pdata.length (pdata.drop 1) with
  | none =>
    refine handles_refused rfl rfl fun n pos hn => ?_
    rw [registerField, hscan] at hn
    cases hn
  | some f =>
    have hfield : registerField pdata = some f.1 := by rw [registerField, hscan]; rfl
    cases hpos : Text.find '=' pdata with
    | none =>
      refine handles_refused rfl rfl fun n pos _ hpos' => ?_
      rw [hpos] at hpos'
      cases hpos'
    | some pos =>
      dsimp only
      rw [regType_ofNat]
      split_ifs with hgp hsp hpc
      · exact handles_storeRegister hfield hpos (by omega) fun v =>
          ⟨_, RiscvState.setGp_eq s.cpu (by rw [BitVec.toNat_ofNat]; omega) v⟩
      · exact handles_storeRegister hfield hpos (by omega) fun v => ⟨_, rfl⟩
      · exact handles_storeRegister hfield hpos (by omega) fun v => ⟨_, rfl⟩
      · refine handles_refused rfl rfl fun n pos hn _ => ?_
        rw [hfield] at hn
        cases hn
        omega

theorem handles_setBreakpoints (s : DebugSession) (pdata : List Char) :
    Handles s pdata (some .setBreakpoint) ((setBreakpoints pdata).run s) := by
  rw [setBreakpoints, scanBreakpoint_eq]
  cases hfields : breakpointFields pdata with
  | none => exact handles_refused rfl rfl hfields
  | some f =>
    have hreason : ¬ Refused s pdata (some .setBreakpoint) := by
      intro h
      rw [Refused, hfields] at h
      cases h
    obtain ⟨btype, maddr, msize⟩ := f
    rw [Option.map_some]
    dsimp only
    by_cases hinstr : intOf btype = 0
    · rw [if_pos hinstr]
      exact handles_served rfl (by decide) hreason
    · rw [if_neg hinstr]
      by_cases hdata : intOf btype = 2
      · rw [if_pos hdata]
        exact handles_served rfl (by decide) hreason
      · rw [if_neg hdata]
        exact handles_served rfl (by decide) hreason

section Read

variable {s : DebugSession} {pdata : List Char} {maddr : Nat} {msize : Int}
  (hfields : memoryFields pdata = some (maddr, msize))
include hfields

theorem refused_read_iff : Refused s pdata (some .readMemory) ↔ 0 ≤ intOf msize ∧
    ¬ (s.memory.Valid (BitVec.ofNat 64 maddr) (intOf msize) ∧
      s.memory.Takes (BitVec.ofNat 64 maddr) (intOf msize)) := by
  refine ⟨fun h => h maddr msize hfields, fun h maddr' msize' hfields' => ?_⟩
  rw [hfields] at hfields'
  cases hfields'
  exact h

/-- The size of a request that can be done is stored as it is. -/
theorem stored_of_serviceable_read (h : Serviceable s pdata (some .readMemory)) :
    0 ≤ intOf msize ∧ s.memory.Initialised (BitVec.ofNat 64 maddr) (intOf msize) := by
  obtain ⟨maddr', msize', hfields', -, htakes, hinit⟩ := h
  rw [hfields] at hfields'
  cases hfields'
  have hbounds := htakes.bounds
  rw [intOf_of_lt (by omega) (by omega)]
  exact ⟨by omega, hinit⟩

theorem handles_read_negative (hneg : intOf msize < 0) :
    Handles s pdata (some .readMemory) ((readMemory pdata).run s) := by
  have hrun : (readMemory pdata).run s = .error .undefined s := by
    rw [readMemory, scanAddressSize_eq, hfields, Option.map_some]
    dsimp only
    rw [if_pos hneg]
    rfl
  refine handles_thrown hrun (fun h => ?_) fun h => ?_
  · exact absurd ((refused_read_iff hfields).mp h).1 (Int.not_le.mpr hneg)
  · exact absurd (stored_of_serviceable_read hfields h).1 (Int.not_le.mpr hneg)

/-- `ReadMemory`, in terms of the read. -/
theorem readMemory_run (hneg : ¬ intOf msize < 0) : (readMemory pdata).run s =
    match (Memory.readPhysicalMemory (BitVec.ofNat 64 maddr) (intOf msize)
      (List.replicate (intOf msize).toNat 0) false true).run s.memory with
    | .ok (rcode, bytes) m => .ok (if rcode ≠ 0 then "E0".toList
        else (bytes.take (intOf msize).toNat).flatMap fun b => Text.hexPadded 2 b.toNat)
        { s with memory := m }
    | .error .undefined m => .error .undefined { s with memory := m }
    | .error _ m => .ok "E0".toList { s with memory := m } := by
  rw [readMemory, scanAddressSize_eq, hfields, Option.map_some]
  dsimp only
  rw [if_neg hneg, EStateM.run_bind, Effect.run_tryCatch, map_eq_pure_bind, EStateM.run_bind,
    onMemory, Effect.run_focus]
  cases (Memory.readPhysicalMemory (BitVec.ofNat 64 maddr) (intOf msize)
    (List.replicate (intOf msize).toNat 0) false true).run s.memory with
  | ok r m =>
    rw [Effect.mapState_ok]
    dsimp only [EStateM.run_pure]
    split_ifs <;> rfl
  | error f m => cases f <;> rfl

/-- A read that is refused is answered `E0`. -/
theorem handles_read_refused (hneg : ¬ intOf msize < 0)
    (hok : ¬ (s.memory.Valid (BitVec.ofNat 64 maddr) (intOf msize) ∧
      s.memory.Takes (BitVec.ofNat 64 maddr) (intOf msize))) :
    Handles s pdata (some .readMemory) ((readMemory pdata).run s) := by
  have hrefused : Refused s pdata (some .readMemory) :=
    (refused_read_iff hfields).mpr ⟨Int.not_lt.mp hneg, hok⟩
  obtain ⟨m, hsame, hr⟩ :=
    Memory.readPhysicalMemory_refused hok (List.replicate (intOf msize).toNat 0)
  have hunchanged : Unchanged s { s with memory := m } := ⟨rfl, rfl, hsame, rfl, rfl⟩
  rw [readMemory_run hfields hneg]
  rcases hr with ⟨f, hf, hrun⟩ | ⟨rcode, bytes, hcode, hrun⟩
  · rw [hrun]
    cases f with
    | undefined => exact absurd rfl hf
    | _ => exact .inl ⟨hrefused, _, _, rfl, rfl, hunchanged⟩
  · rw [hrun]
    dsimp only
    rw [if_pos hcode]
    exact .inl ⟨hrefused, _, _, rfl, rfl, hunchanged⟩

/-- A read that is not refused is answered with the bytes, or with `E0` after it has initialised
    them. -/
theorem handles_read_taken (hneg : ¬ intOf msize < 0)
    (hvalid : s.memory.Valid (BitVec.ofNat 64 maddr) (intOf msize))
    (htakes : s.memory.Takes (BitVec.ofNat 64 maddr) (intOf msize)) :
    Handles s pdata (some .readMemory) ((readMemory pdata).run s) := by
  have hnot : ¬ Refused s pdata (some .readMemory) :=
    fun h => ((refused_read_iff hfields).mp h).2 ⟨hvalid, htakes⟩
  obtain ⟨rcode, bytes, m, hrun, hcode, hdefined⟩ :=
    Memory.readPhysicalMemory_taken hvalid htakes (List.replicate (intOf msize).toNat 0)
  rw [readMemory_run hfields hneg, hrun]
  dsimp only
  by_cases hinit : s.memory.Initialised (BitVec.ofNat 64 maddr) (intOf msize)
  · rw [if_neg (by simpa using hcode.mpr hinit)]
    refine handles_served rfl (head_ne_of_not_mem fun h => ?_) hnot
    obtain ⟨b, -, hb⟩ := List.mem_flatMap.mp h
    exact Text.not_mem_hexPadded (by decide) _ _ hb
  · rw [if_pos fun h => hinit (hcode.mp h)]
    refine .inr ⟨hnot, fun ⟨text, s', hr, _, hsame⟩ => ?_, fun h => ?_⟩
    · cases hr
      refine hinit fun b hb => ?_
      rw [← hsame.memory.isDefined]
      exact hdefined b hb
    · exact absurd (stored_of_serviceable_read hfields h).2 hinit

end Read

theorem handles_readMemory (s : DebugSession) (pdata : List Char) :
    Handles s pdata (some .readMemory) ((readMemory pdata).run s) := by
  cases hfields : memoryFields pdata with
  | none =>
    rw [readMemory, scanAddressSize_eq, hfields]
    refine handles_refused rfl rfl fun maddr msize h => ?_
    rw [hfields] at h
    cases h
  | some f =>
    by_cases hneg : intOf f.2 < 0
    · exact handles_read_negative hfields hneg
    · by_cases hok : s.memory.Valid (BitVec.ofNat 64 f.1) (intOf f.2) ∧
          s.memory.Takes (BitVec.ofNat 64 f.1) (intOf f.2)
      · exact handles_read_taken hfields hneg hok.1 hok.2
      · exact handles_read_refused hfields hneg hok

section Write

variable {s : DebugSession} {pdata : List Char} {maddr pos : Nat} {msize : Int}
  (hfields : memoryFields pdata = some (maddr, msize)) (hpos : Text.find ':' pdata = some pos)
include hfields hpos

theorem refused_write_iff : Refused s pdata (some .writeMemory) ↔ 0 ≤ intOf msize ∧
    ((∃ k < (intOf msize).toNat, pos + 1 + 2 * k ≤ pdata.length ∧
        digitPair pdata pos k = none ∧ Scans pdata pos k) ∨
      Scans pdata pos (intOf msize).toNat ∧
        ¬ s.memory.Valid (BitVec.ofNat 64 maddr) (intOf msize)) := by
  refine ⟨fun h => h maddr msize pos hfields hpos, fun h maddr' msize' pos' hfields' hpos' => ?_⟩
  rw [hfields] at hfields'
  rw [hpos] at hpos'
  cases hfields'
  cases hpos'
  exact h

theorem stored_of_serviceable_write (h : Serviceable s pdata (some .writeMemory)) :
    0 ≤ intOf msize ∧ Complete pdata pos (intOf msize).toNat ∧
      s.memory.Takes (BitVec.ofNat 64 maddr) (intOf msize) := by
  obtain ⟨maddr', msize', pos', hfields', hpos', hcomplete, -, htakes⟩ := h
  rw [hfields] at hfields'
  rw [hpos] at hpos'
  cases hfields'
  cases hpos'
  have hbounds := htakes.bounds
  rw [intOf_of_lt (by omega) (by omega)]
  exact ⟨by omega, hcomplete, htakes⟩

theorem handles_write_negative (hneg : intOf msize < 0) :
    Handles s pdata (some .writeMemory) ((writeMemory pdata).run s) := by
  have hrun : (writeMemory pdata).run s = .error .undefined s := by
    rw [writeMemory, scanAddressSize_eq, hfields, hpos, Option.map_some]
    dsimp only
    rw [if_pos hneg]
    rfl
  refine handles_thrown hrun (fun h => ?_) fun h => ?_
  · exact absurd ((refused_write_iff hfields hpos).mp h).1 (Int.not_le.mpr hneg)
  · exact absurd (stored_of_serviceable_write hfields hpos h).1 (Int.not_le.mpr hneg)

/-- `WriteMemory`, in terms of the scan and the write. -/
theorem writeMemory_run (hneg : ¬ intOf msize < 0) : (writeMemory pdata).run s =
    match scanBytes pdata (intOf msize).toNat pos with
    | .error f => .error f s
    | .ok none => .ok "E2".toList s
    | .ok (some mbytes) =>
      match (Memory.writePhysicalMemory (BitVec.ofNat 64 maddr) (intOf msize) mbytes false
        false).run s.memory with
      | .ok _ m =>
        .ok "OK".toList { s with
          memory := m
          server := { s.server with
            clientWrites := s.server.clientWrites ++ [(BitVec.ofNat 64 maddr, intOf msize)] } }
      | .error (.sim _) m => .ok "E2".toList { s with memory := m }
      | .error f m => .error f { s with memory := m } := by
  rw [writeMemory, scanAddressSize_eq, hfields, hpos, Option.map_some]
  dsimp only
  rw [if_neg hneg, EStateM.run_bind]
  cases scanBytes pdata (intOf msize).toNat pos with
  | error f => rfl
  | ok r =>
    rw [Effect.run_lift_ok]
    cases r with
    | none => rfl
    | some mbytes =>
      dsimp only
      rw [Effect.run_tryCatch, EStateM.run_bind, onMemory, Effect.run_focus]
      cases (Memory.writePhysicalMemory (BitVec.ofNat 64 maddr) (intOf msize) mbytes false
        false).run s.memory with
      | ok r m => rfl
      | error f m => cases f <;> rfl

/-- Data that scans is written, unless the write throws: only the exception of the address checks is
    caught. -/
theorem handles_write_scanned (hneg : ¬ intOf msize < 0)
    (hscans : Scans pdata pos (intOf msize).toNat) :
    Handles s pdata (some .writeMemory) ((writeMemory pdata).run s) := by
  obtain ⟨mbytes, hmbytes⟩ := scanBytes_of_scans hscans
  have hlen := length_scanBytes pdata _ _ hmbytes
  rw [writeMemory_run hfields hpos hneg, hmbytes]
  dsimp only
  by_cases hvalid : s.memory.Valid (BitVec.ofNat 64 maddr) (intOf msize)
  · have hnot : ¬ Refused s pdata (some .writeMemory) := by
      intro h
      rcases ((refused_write_iff hfields hpos).mp h).2 with ⟨k, hk, -, hnone, -⟩ | ⟨-, hinvalid⟩
      · have hle := hscans.le hnone
        omega
      · exact hinvalid hvalid
    rcases Memory.writePhysicalMemory_valid hvalid (Nat.le_of_eq hlen.symm) with
      ⟨rcode, m, hrun⟩ | ⟨htakes, m, hrun⟩
    · rw [hrun]
      exact handles_served rfl (by decide) hnot
    · rw [hrun]
      exact handles_thrown rfl hnot fun h =>
        htakes (stored_of_serviceable_write hfields hpos h).2.2
  · rw [Memory.writePhysicalMemory_refused hvalid]
    exact handles_refused rfl rfl
      ((refused_write_iff hfields hpos).mpr ⟨Int.not_lt.mp hneg, .inr ⟨hscans, hvalid⟩⟩)

/-- Byte `k` is the first that does not scan: it is refused, or it is past the end of the string. -/
theorem handles_write_stopped (hneg : ¬ intOf msize < 0) {k : Nat}
    (hk : k < (intOf msize).toNat) (hfail : digitPair pdata pos k = none)
    (hscans : Scans pdata pos k) :
    Handles s pdata (some .writeMemory) ((writeMemory pdata).run s) := by
  rw [writeMemory_run hfields hpos hneg, scanBytes_of_first hk hfail hscans]
  by_cases hlen : pdata.length < pos + 1 + 2 * k
  · rw [if_pos hlen]
    refine handles_thrown rfl (fun h => ?_) fun h => ?_
    · rcases ((refused_write_iff hfields hpos).mp h).2 with
        ⟨j, hj, hle, hnone, hscans'⟩ | ⟨hall, -⟩
      · have hjk := hscans'.le hfail
        have hkj := hscans.le hnone
        omega
      · have hnk := hall.le hfail
        omega
    · have hnk := (stored_of_serviceable_write hfields hpos h).2.1.scans.le hfail
      omega
  · rw [if_neg hlen]
    exact handles_refused rfl rfl ((refused_write_iff hfields hpos).mpr
      ⟨Int.not_lt.mp hneg, .inl ⟨k, hk, Nat.le_of_not_lt hlen, hfail, hscans⟩⟩)

end Write

theorem handles_writeMemory (s : DebugSession) (pdata : List Char) :
    Handles s pdata (some .writeMemory) ((writeMemory pdata).run s) := by
  cases hfields : memoryFields pdata with
  | none =>
    rw [writeMemory, scanAddressSize_eq, hfields]
    refine handles_refused rfl rfl fun maddr msize pos h => ?_
    rw [hfields] at h
    cases h
  | some f =>
    cases hpos : Text.find ':' pdata with
    | none =>
      rw [writeMemory, scanAddressSize_eq, hfields, hpos]
      refine handles_refused rfl rfl fun maddr msize pos _ h => ?_
      rw [hpos] at h
      cases h
    | some pos =>
      by_cases hneg : intOf f.2 < 0
      · exact handles_write_negative hfields hpos hneg
      · rcases scans_or_first pdata pos (intOf f.2).toNat with hscans | ⟨k, hk, hfail, hscans⟩
        · exact handles_write_scanned hfields hpos hneg hscans
        · exact handles_write_stopped hfields hpos hneg hk hfail hscans

/-! ### Every request -/

theorem handles_readGpRegisters (s : DebugSession) (pdata : List Char) :
    Handles s pdata (some .readGpRegisters) ((readGpRegisters).run s) := by
  refine handles_served rfl (head_ne_of_not_mem ?_) id
  simp only [List.mem_append, List.mem_flatten, List.mem_map, not_or]
  refine ⟨⟨?_, not_mem_encodeRegisterValue (by decide) _⟩,
    not_mem_encodeRegisterValue (by decide) _⟩
  rintro ⟨_, ⟨i, -, rfl⟩, hi⟩
  exact not_mem_encodeRegisterValue (by decide) _ hi

theorem handles_respond (s : DebugSession) (pdata : List Char) (a : Option Rsp.Action) :
    Handles s pdata a ((respond pdata a).run s) := by
  cases a with
  | none => exact handles_served rfl (by decide) id
  | some a =>
    cases a with
    | readMemory => exact handles_readMemory s pdata
    | writeMemory => exact handles_writeMemory s pdata
    | readRegister => exact handles_readRegister s pdata
    | writeRegister => exact handles_writeRegister s pdata
    | setBreakpoint => exact handles_setBreakpoints s pdata
    | readGpRegisters => exact handles_readGpRegisters s pdata
    | _ => exact handles_served rfl (by decide) id

/-- A command without fields is not refused and can be done. -/
theorem plain_of_not_mem {a : Option Rsp.Action} (ha : a ∉ withFields) (s : DebugSession)
    (pdata : List Char) : Serviceable s pdata a ∧ ¬ Refused s pdata a := by
  cases a with
  | none => exact ⟨trivial, id⟩
  | some a =>
    cases a with
    | readMemory | writeMemory | readRegister | writeRegister | setBreakpoint =>
      exact absurd (by decide) ha
    | _ => exact ⟨trivial, id⟩

/-- The length of the array that the handler of a command declares. -/
def arrayLength (pdata : List Char) : Option Rsp.Action → Option Int
  | some .readMemory => (memoryFields pdata).map (intOf ·.2)
  | some .writeMemory =>
    if (Text.find ':' pdata).isSome then (memoryFields pdata).map (intOf ·.2) else none
  | _ => none

/-- There is such an array, on a stack with room for `room` bytes. -/
def ArrayFits (room : Nat) (pdata : List Char) (a : Option Rsp.Action) : Prop :=
  ∀ n, arrayLength pdata a = some n → 0 ≤ n ∧ n ≤ room

/-- `Dispatch` returned this: a packet, or nothing for an empty request, which is ignored. -/
def IsResponse (pdata packet : List Char) : Prop :=
  pdata = [] ∧ packet = [] ∨ ∃ text, packet = Rsp.encode text

/-- An `E` reply. -/
def IsError (packet : List Char) : Prop := (payload packet).head? = some 'E'

/-- The request does not break the server: its array fits, there is a response, the response is an
    `E` reply if the request cannot be done, and nothing has changed if it is an `E` reply. -/
structure Harmless (room : Nat) (s : DebugSession) (pdata : List Char) : Prop where
  fits : ∀ a, Rsp.action pdata = .ok a → ArrayFits room pdata a
  responds : ∃ packet s', (dispatch pdata).run s = .ok packet s' ∧ IsResponse pdata packet ∧
    (¬ Serviceable s pdata (requestAction pdata) → IsError packet) ∧
    (IsError packet → Unchanged s s')

theorem isError_encode {text : List Char} : IsError (Rsp.encode text) ↔ text.head? = some 'E' := by
  rw [IsError, payload_encode]

theorem dispatch_run {pdata : List Char} (hne : pdata ≠ []) {a : Option Rsp.Action}
    (ha : Rsp.action pdata = .ok a) (s : DebugSession) : (dispatch pdata).run s =
      match (respond pdata a).run s with
      | .ok text s' => .ok (Rsp.encode text) s'
      | .error f s' => .error f s' := by
  rw [dispatch, if_neg (by simpa using hne), EStateM.run_bind, ha, Effect.run_lift_ok]
  dsimp only
  rw [EStateM.run_bind]
  cases (respond pdata a).run s <;> rfl

/-- A request that is dispatched does no harm if it is refused, or served and serviceable. -/
theorem responds_iff {s : DebugSession} {pdata : List Char} (hne : pdata ≠ [])
    {a : Option Rsp.Action} (ha : Rsp.action pdata = .ok a) {P : Prop} :
    (∃ packet s', (dispatch pdata).run s = .ok packet s' ∧ IsResponse pdata packet ∧
      (¬ P → IsError packet) ∧ (IsError packet → Unchanged s s')) ↔
    Refuses s ((respond pdata a).run s) ∨ P ∧ Serves ((respond pdata a).run s) := by
  rw [dispatch_run hne ha]
  constructor
  · rintro ⟨packet, s', hrun, -, hfaulty, hsame⟩
    cases hr : (respond pdata a).run s with
    | error f s'' => rw [hr] at hrun; cases hrun
    | ok text s'' =>
      rw [hr] at hrun
      cases hrun
      rw [isError_encode] at hfaulty hsame
      by_cases hE : text.head? = some 'E'
      · exact .inl ⟨text, s', rfl, hE, hsame hE⟩
      · exact .inr ⟨by_contra fun h => hE (hfaulty h), text, s', rfl, hE⟩
  · rintro (⟨text, s', hr, hE, hsame⟩ | ⟨hP, text, s', hr, hE⟩)
    · rw [hr]
      exact ⟨_, s', rfl, .inr ⟨text, rfl⟩, fun _ => isError_encode.mpr hE, fun _ => hsame⟩
    · rw [hr]
      exact ⟨_, s', rfl, .inr ⟨text, rfl⟩, fun h => absurd hP h,
        fun h => absurd (isError_encode.mp h) hE⟩

/-- The array of a request depends on its first character. -/
theorem fits_iff {room : Nat} {pdata : List Char} :
    (∀ a, Rsp.action pdata = .ok a → ArrayFits room pdata a) ↔
      (ByFirstChar pdata → ArrayFits room pdata (requestAction pdata)) := by
  constructor
  · intro h hfirst
    cases ha : requestAction pdata with
    | none => exact fun n hn => by cases hn
    | some a => exact h _ (action_of_byFirstChar ha hfirst)
  · intro h a ha
    by_cases hmem : a ∈ withFields
    · obtain ⟨hr, hfirst⟩ := requestAction_of_action ha hmem
      exact hr ▸ h hfirst
    · intro n hn
      unfold arrayLength at hn
      split at hn
      · exact absurd (by decide) hmem
      · exact absurd (by decide) hmem
      · cases hn

/-- For every request in every state: it does no harm if and only if it is not `Hc-`, its array fits
    the stack, and it can be done or is one for its first character with a reason to refuse it. -/
theorem request_harmless_iff (room : Nat) (s : DebugSession) (pdata : List Char) :
    Harmless room s pdata ↔ pdata ≠ "Hc-".toList ∧
      (ByFirstChar pdata → ArrayFits room pdata (requestAction pdata)) ∧
      (Serviceable s pdata (requestAction pdata) ∨
        ByFirstChar pdata ∧ Refused s pdata (requestAction pdata)) := by
  have hharmless : Harmless room s pdata ↔
      (ByFirstChar pdata → ArrayFits room pdata (requestAction pdata)) ∧
      ∃ packet s', (dispatch pdata).run s = .ok packet s' ∧ IsResponse pdata packet ∧
        (¬ Serviceable s pdata (requestAction pdata) → IsError packet) ∧
        (IsError packet → Unchanged s s') := by
    rw [← fits_iff]
    exact ⟨fun h => ⟨h.1, h.2⟩, fun h => ⟨h.1, h.2⟩⟩
  rw [hharmless, and_left_comm]
  refine and_congr_right fun _ => ?_
  cases ha : Rsp.action pdata with
  | error f =>
    have hhc := (Rsp.action_error ha).1
    refine ⟨?_, fun h => absurd hhc h.1⟩
    rintro ⟨packet, s', hrun, -⟩
    rw [dispatch, if_neg (by rw [hhc]; decide), EStateM.run_bind, ha] at hrun
    cases hrun
  | ok a =>
    have hnot : pdata ≠ "Hc-".toList := by
      rintro rfl
      have hundefined : Rsp.action "Hc-".toList = .error .undefined := by decide
      rw [hundefined] at ha
      cases ha
    by_cases hne : pdata = []
    · subst hne
      refine ⟨fun _ => ⟨hnot, .inl trivial⟩, fun _ => ?_⟩
      exact ⟨[], s, rfl, .inl ⟨rfl, rfl⟩, fun h => absurd trivial h, fun h => by cases h⟩
    · rw [responds_iff hne ha]
      by_cases hmem : a ∈ withFields
      · obtain ⟨hr, hfirst⟩ := requestAction_of_action ha hmem
        rw [hr]
        rcases handles_respond s pdata a with ⟨h, hrefuses⟩ | ⟨hreason, hrefuses, hserves⟩
        · exact ⟨fun _ => ⟨hnot, .inr ⟨hfirst, h⟩⟩, fun _ => .inl hrefuses⟩
        · refine ⟨fun h => ⟨hnot, .inl ?_⟩, fun h => .inr ?_⟩
          · rcases h with h | h
            · exact absurd h hrefuses
            · exact h.1
          · rcases h with ⟨-, h | ⟨-, h⟩⟩
            · exact ⟨h, hserves h⟩
            · exact absurd h hreason
      · -- another name got in first, or there are no fields
        obtain ⟨hserviceable, hreason⟩ := plain_of_not_mem hmem s pdata
        rcases handles_respond s pdata a with ⟨h, -⟩ | ⟨-, hrefuses, hserves⟩
        · exact absurd h hreason
        · refine ⟨fun h => ⟨hnot, .inl ?_⟩, fun h => .inr ⟨?_, hserves hserviceable⟩⟩
          · rcases h with h | h
            · exact absurd h hrefuses
            · exact h.1
          · rcases h with ⟨-, h | ⟨hfirst, h⟩⟩
            · exact h
            · cases hr : requestAction pdata with
              | none => trivial
              | some b =>
                rw [action_of_byFirstChar hr hfirst] at ha
                rw [hr, Except.ok.inj ha] at h
                exact absurd h hreason

/-- A write of no bytes gets a `MBLOCK_ERROR` out of the server. -/
theorem empty_write_escapes :
    (∃ s', (dispatch "M0,0:".toList).run sevens = .error (.mblock .memError) s') ∧
      ∀ room, ¬ Harmless room sevens "M0,0:".toList := by
  have hthrown : ∃ s', (dispatch "M0,0:".toList).run sevens = .error (.mblock .memError) s' :=
    ⟨_, rfl⟩
  refine ⟨hthrown, fun room h => ?_⟩
  obtain ⟨s', hrun⟩ := hthrown
  obtain ⟨packet, s'', hrun', -⟩ := h.responds
  rw [hrun] at hrun'
  cases hrun'

end DebugServer

end Dimebox
