import Dimebox.Breakpoints

/-! Where a breakpoint stops.

    A breakpoint is stored as the bytes of an instruction of four bytes, and the PC stands for four
    bytes too: a breakpoint is hit as soon as the two overlap. That is right for instructions that
    are all four bytes long and aligned; with instructions of two bytes the one before and the one
    after overlap as well. -/

namespace Dimebox

namespace DebugServer

/-- `Z0,addr,kind` with the kind of a compressed instruction or of another one. -/
structure InstructionPacket extends BreakpointPacket where
  inserts : isSet = true
  instruction : btype = 0
  size : kind = 2 ∨ kind = 4

/-- The session after the packets. -/
def afterPackets (s : DebugSession) (packets : List InstructionPacket) : DebugSession :=
  (packets.foldl (fun u p => u.send p.toBreakpointPacket) (DebuggerUse.start s)).session

/-- The bytes of a breakpoint at `a` overlap the four from `pc` on. The range of a breakpoint in the
    last three bytes of the address space wraps, and is empty. -/
def Reaches (a pc : U64) : Prop :=
  a.toNat + 3 < 2 ^ 64 ∧ ((pc - a).toNat ≤ 3 ∨ (a - pc).toNat ≤ 3)

/-- A breakpoint at the PC is there and its range does not wrap, or it does and another one is near;
    where there is none at the PC there is none near. -/
def StopsExactly (addresses : List U64) (pc : U64) : Prop :=
  (pc ∈ addresses → pc.toNat + 3 < 2 ^ 64 ∨ ∃ a ∈ addresses, Reaches a pc) ∧
    (pc ∉ addresses → ∀ a ∈ addresses, ¬ Reaches a pc)

/-! ### Packets -/

/-- The scan of a breakpoint packet with the address in hexadecimal. -/
theorem scanBreakpoint_instruction {digits : List Char} {a : U64} (h : Text.Spells digits a.toNat)
    {k : Char} (hk : k = '2' ∨ k = '4') :
    scanBreakpoint ('Z' :: '0' :: ',' :: (digits ++ [',', k])) =
      some (0, a, if k = '2' then 2 else 4) := by
  have htype : Text.scanDec ('0' :: ',' :: (digits ++ [',', k])) =
      some (0, ',' :: (digits ++ [',', k])) :=
    @Text.scanDec_run ['0'] (',' :: (digits ++ [',', k])) (List.all_eq_true.mp (by decide)) (by decide)
      fun c hc => Option.some.inj hc ▸ rfl
  have haddress : Text.scanHex ((digits ++ [',', k]).length + 1) (digits ++ [',', k]) =
      some (a.toNat, [',', k]) := by
    refine Text.scanHex_run h a.isLt ?_ (.inr ?_)
    · rw [List.length_append]
      omega
    · rintro c hc
      obtain rfl := Option.some.inj hc
      exact ⟨rfl, by decide, by decide⟩
  have hfields : breakpointFields ('Z' :: '0' :: ',' :: (digits ++ [',', k])) =
      some (0, a.toNat, if k = '2' then 2 else 4) := by
    have hdrop : ('Z' :: '0' :: ',' :: (digits ++ [',', k])).drop 1 =
        '0' :: ',' :: (digits ++ [',', k]) := rfl
    rw [breakpointFields, hdrop, htype]
    dsimp only [Option.bind_eq_bind, Option.bind_some]
    rw [Text.scanChar, if_pos rfl, Option.bind_some, haddress]
    rcases hk with rfl | rfl <;> rfl
  rw [scanBreakpoint_eq, hfields, Option.map_some, BitVec.ofNat_toNat, BitVec.setWidth_eq]
  rcases hk with rfl | rfl <;> rfl

/-- For every address there is the packet of a client, in whatever digits, with either kind. -/
theorem exists_instructionPacket {digits : List Char} {a : U64} (h : Text.Spells digits a.toNat)
    {k : Char} (hk : k = '2' ∨ k = '4') : ∃ p : InstructionPacket,
      p.text = 'Z' :: '0' :: ',' :: (digits ++ [',', k]) ∧ p.maddr = a := by
  refine ⟨{ isSet := true, fields := '0' :: ',' :: (digits ++ [',', k]), btype := 0, maddr := a,
            kind := if k = '2' then 2 else 4, plain := ?_
            scans := scanBreakpoint_instruction h hk, known := .inl rfl, inserts := rfl
            instruction := rfl, size := ?_ }, rfl, rfl⟩
  · intro c hc
    have hkind : (Text.hexValue k).isSome := by rcases hk with rfl | rfl <;> rfl
    simp only [List.mem_cons, List.mem_append, List.not_mem_nil, or_false] at hc
    rcases hc with rfl | rfl | hc | rfl | rfl
    · exact .inl rfl
    · exact .inr rfl
    · exact .inl (h.digits c hc)
    · exact .inr rfl
    · exact .inl hkind
  · rcases hk with rfl | rfl
    · exact .inl rfl
    · exact .inr rfl

/-! ### What is stored -/

theorem instrBreakpoints_receive (d : DebugServer) (p : InstructionPacket) :
    (receive d p.toBreakpointPacket).instrBreakpoints =
      d.instrBreakpoints ++ [(p.maddr, p.maddr + 3)] := by
  have hkind : ¬ 4 < p.kind := by
    have hsize := p.size
    omega
  rw [receive, if_pos p.inserts, if_pos p.instruction, if_neg hkind]
  rfl

theorem instrBreakpoints_sent (packets : List InstructionPacket) (u : DebuggerUse) :
    (packets.foldl (fun u p => u.send p.toBreakpointPacket)
        u).session.server.instrBreakpoints =
      u.session.server.instrBreakpoints ++ packets.map fun p => (p.maddr, p.maddr + 3) := by
  induction packets generalizing u with
  | nil => exact (List.append_nil _).symm
  | cons p packets ih =>
    rw [List.foldl_cons, ih, send_server, instrBreakpoints_receive, List.append_assoc]
    rfl

/-- A range of four bytes and a PC of four bytes. -/
theorem exists_between_iff (a pc : U64) :
    (∃ i < 4, a ≤ pc + BitVec.ofNat 64 i ∧ pc + BitVec.ofNat 64 i ≤ a + 3) ↔ Reaches a pc := by
  have ha := a.isLt
  have hpc := pc.isLt
  have hthree : (a + 3).toNat = (a.toNat + 3) % 2 ^ 64 := BitVec.toNat_add a 3
  simp only [Reaches, BitVec.le_def, BitVec.toNat_sub, BitVec.toNat_add, BitVec.toNat_ofNat, hthree]
  constructor
  · rintro ⟨i, hi, hlow, hhigh⟩
    refine ⟨by omega, ?_⟩
    omega
  · rintro ⟨hlive, hafter | hbefore⟩
    · exact ⟨0, by decide, by omega, by omega⟩
    · exact ⟨(2 ^ 64 - pc.toNat + a.toNat) % 2 ^ 64, by omega, by omega, by omega⟩

theorem breakpointHit_iff (d : DebugServer) {addresses : List U64}
    (h : d.instrBreakpoints = addresses.map fun a => (a, a + 3)) (pc : U64) :
    d.breakpointHit pc = true ↔ ∃ a ∈ addresses, Reaches a pc := by
  simp only [breakpointHit, breakpointMatch, h, List.any_eq_true, List.any_map, List.mem_range,
    Function.comp_apply, Bool.and_eq_true, decide_eq_true_eq]
  constructor
  · rintro ⟨i, hi, a, ha, hbetween⟩
    exact ⟨a, ha, (exists_between_iff a pc).mp ⟨i, hi, hbetween⟩⟩
  · rintro ⟨a, ha, hreach⟩
    obtain ⟨i, hi, hbetween⟩ := (exists_between_iff a pc).mpr hreach
    exact ⟨i, hi, a, ha, hbetween⟩

/-- For every list of instruction breakpoints and every PC: the PC hits a breakpoint if and only if
    one was set at its address, exactly if there is none that only overlaps. -/
theorem breakpoint_hit_exact_iff (s : DebugSession) (packets : List InstructionPacket) (pc : U64) :
    ((afterPackets s packets).server.breakpointHit pc = true ↔ ∃ p ∈ packets, p.maddr = pc) ↔
      StopsExactly (packets.map fun p => p.maddr) pc := by
  have hstored : (afterPackets s packets).server.instrBreakpoints =
      (packets.map fun p => p.maddr).map fun a => (a, a + 3) := by
    rw [afterPackets, instrBreakpoints_sent, List.map_map]
    rfl
  have hset : (∃ p ∈ packets, p.maddr = pc) ↔ pc ∈ packets.map fun p => p.maddr := by
    rw [List.mem_map]
  rw [breakpointHit_iff _ hstored, hset, StopsExactly]
  by_cases hpc : pc ∈ packets.map fun p => p.maddr
  · rw [and_iff_left fun hnot => absurd hpc hnot, imp_iff_right hpc]
    have hself : pc.toNat + 3 < 2 ^ 64 → Reaches pc pc := fun h =>
      ⟨h, .inl (by rw [BitVec.sub_self]; decide)⟩
    constructor
    · exact fun h => .inr (h.mpr hpc)
    · rintro (hlive | hnear)
      · exact iff_of_true ⟨pc, hpc, hself hlive⟩ hpc
      · exact iff_of_true hnear hpc
  · rw [and_iff_right fun hset => absurd hset hpc, imp_iff_right hpc]
    constructor
    · exact fun h a ha hreach => hpc (h.mp ⟨a, ha, hreach⟩)
    · exact fun h => iff_of_false (fun ⟨a, ha, hreach⟩ => h a ha hreach) hpc

/-- A breakpoint at 0x100 stops the instruction before it and the one after it too, if they are
    compressed. -/
theorem breakpoint_stops_neighbours (s : DebugSession) : ∃ p : InstructionPacket,
    p.text = "Z0,100,2".toList ∧ p.maddr = 0x100 ∧
      (afterPackets s [p]).server.breakpointHit 0xfe = true ∧
      (afterPackets s [p]).server.breakpointHit 0x102 = true := by
  have hspells : Text.Spells "100".toList (0x100 : U64).toNat :=
    ⟨by decide, List.all_eq_true.mp (by decide), by decide⟩
  obtain ⟨p, htext, haddr⟩ := exists_instructionPacket hspells (.inl rfl)
  have hstored : (afterPackets s [p]).server.instrBreakpoints =
      [(0x100 : U64)].map fun a => (a, a + 3) := by
    rw [afterPackets, instrBreakpoints_sent, ← haddr]
    rfl
  have hreach : Reaches 0x100 0xfe ∧ Reaches 0x100 0x102 :=
    ⟨⟨by decide, by decide⟩, by decide, by decide⟩
  exact ⟨p, htext, haddr, (breakpointHit_iff _ hstored _).mpr ⟨_, List.mem_cons_self, hreach.1⟩,
    (breakpointHit_iff _ hstored _).mpr ⟨_, List.mem_cons_self, hreach.2⟩⟩

/-- One breakpoint, and a PC two bytes before it. -/
theorem breakpoint_hit_before_address : ¬ ∀ (s : DebugSession) (packets : List InstructionPacket)
    (pc : U64), pc.toNat % 2 = 0 →
      ((afterPackets s packets).server.breakpointHit pc = true ↔ ∃ p ∈ packets, p.maddr = pc) := by
  intro h
  let s : DebugSession :=
    { server := { core := 0 }, cpu := {}, pc := 0
      memory := { physMem := { oracle := { rand := fun _ => 0, heap := fun _ => 0 } } } }
  obtain ⟨p, -, haddr, hhit, -⟩ := breakpoint_stops_neighbours s
  obtain ⟨q, hq, hpc⟩ := (h s [p] 0xfe (by decide)).mp hhit
  rw [List.mem_singleton.mp hq, haddr] at hpc
  exact absurd hpc (by decide)

end DebugServer

end Dimebox
