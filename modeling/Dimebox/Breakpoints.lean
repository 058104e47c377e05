import Dimebox.RequestFields
import Dimebox.Lib.Calls

/-! Breakpoints as a set.

    `Z` inserts a breakpoint, `z` is meant to remove the one it names. `ClearBreakpoints` does not
    look at the packet: it drops all of them. What is in force is compared with the packets
    received, and agrees as long as every removal finds nothing but what it names. -/

namespace Dimebox

namespace DebugServer

/-- A packet `Z type,addr,kind` or `z type,addr,kind`: its fields are hexadecimal digits and commas,
    they scan, and the type is that of a breakpoint or a watchpoint. -/
structure BreakpointPacket where
  isSet : Bool
  fields : List Char
  btype : Int
  maddr : U64
  kind : Int
  plain : ∀ c ∈ fields, (Text.hexValue c).isSome ∨ c = ','
  scans : scanBreakpoint ('Z' :: fields) = some (btype, maddr, kind)
  known : btype = 0 ∨ btype = 2

namespace BreakpointPacket

def text (p : BreakpointPacket) : List Char := (if p.isSet then 'Z' else 'z') :: p.fields

/-- What a packet is about: type and address. -/
def key (p : BreakpointPacket) : Int × U64 := (p.btype, p.maddr)

def Inserts (p : BreakpointPacket) (k : Int × U64) : Prop := p.isSet = true ∧ p.key = k

def Removes (p : BreakpointPacket) (k : Int × U64) : Prop := p.isSet = false ∧ p.key = k

end BreakpointPacket

/-- The breakpoints and watchpoints in force. -/
def InForce (d : DebugServer) (k : Int × U64) : Prop :=
  (k.1 = 0 ∧ k.2 ∈ d.instrBreakpoints.map (·.1)) ∨ (k.1 = 2 ∧ k.2 ∈ d.dataBreakpoints.map (·.1))

/-- A session and the packets it was sent. -/
structure DebuggerUse where
  session : DebugSession
  packets : List BreakpointPacket := []

def DebuggerUse.send (u : DebuggerUse) (p : BreakpointPacket) : DebuggerUse :=
  { session := Effect.final ((dispatch p.text).run u.session), packets := u.packets ++ [p] }

/-- A session without breakpoints. -/
def DebuggerUse.start (s : DebugSession) : DebuggerUse :=
  { session := { s with server := { s.server with instrBreakpoints := [], dataBreakpoints := [] } } }

/-- In force is exactly what a `Z` packet has set and no `z` packet has named since. -/
def DebuggerUse.IsSet (u : DebuggerUse) : Prop :=
  ∀ k, InForce u.session.server k ↔
    Calls.Latest BreakpointPacket.Inserts BreakpointPacket.Removes u.packets k

/-- A removal that finds nothing in force but what it names. -/
def RemovesLast (d : DebugServer) (p : BreakpointPacket) : Prop :=
  p.isSet = false → ∀ k, InForce d k → k = p.key

/-! ### What a packet does -/

section Packet

variable {p : BreakpointPacket}

theorem action_text : Rsp.action p.text =
    .ok (some (if p.isSet then .setBreakpoint else .clearBreakpoint)) := by
  have hchars : ∀ c : Char, c ≠ 'Z' → c ≠ 'z' → Text.hexValue c = none → c ≠ ',' → c ∉ p.text := by
    intro c hset hclear hhex hcomma hmem
    rcases List.mem_cons.mp hmem with h | h
    · cases hp : p.isSet with
      | true => exact hset (by rw [h, hp]; rfl)
      | false => exact hclear (by rw [h, hp]; rfl)
    · rcases p.plain c h with h | h
      · rw [hhex] at h
        cases h
      · exact hcomma h
  have hq : 'q' ∉ p.text := hchars 'q' (by decide) (by decide) (by decide) (by decide)
  have hv : 'v' ∉ p.text := hchars 'v' (by decide) (by decide) (by decide) (by decide)
  have hname : ∀ a, ∀ name ∈ namesBefore a, Text.contains name.toList p.text = false :=
    fun _ _ hname => not_contains_name hq hv hname
  cases hp : p.isSet with
  | true =>
    have htext : p.text = 'Z' :: p.fields := by rw [BreakpointPacket.text, hp]; rfl
    rw [htext] at hname ⊢
    exact action_of_byFirstChar rfl (hname _)
  | false =>
    have htext : p.text = 'z' :: p.fields := by rw [BreakpointPacket.text, hp]; rfl
    rw [htext] at hname ⊢
    rw [action_of_names (by decide) (hname (some .readMemory))]
    have hno : ∀ name ∈ ["vFile", "qSymbol::", "vCont?", "vCont", "vStep", "vKill"],
        Text.contains name.toList ('z' :: p.fields) = false :=
      fun name hmem => hname none name (List.mem_append_right _ hmem)
    simp only [List.forall_mem_cons] at hno
    obtain ⟨h1, h2, h3, h4, h5, h6, -⟩ := hno
    simp only [h1, h2, h3, h4, h5, h6, Bool.false_eq_true, if_false]
    rfl

/-- The vectors after a packet. -/
def receive (d : DebugServer) (p : BreakpointPacket) : DebugServer :=
  if p.isSet then
    if p.btype = 0 then
      { d with instrBreakpoints := d.instrBreakpoints ++
        [(p.maddr, p.maddr + BitVec.ofInt 64 (if 4 < p.kind then p.kind else 3))] }
    else
      { d with dataBreakpoints := d.dataBreakpoints ++
        [(p.maddr, p.maddr + BitVec.ofInt 64 p.kind)] }
  else { d with instrBreakpoints := [], dataBreakpoints := [] }

/-- Every packet is answered `OK`. -/
theorem dispatch_text (s : DebugSession) : (dispatch p.text).run s =
    .ok (Rsp.encode "OK".toList) { s with server := receive s.server p } := by
  refine dispatch_of_respond (by simp [BreakpointPacket.text]) action_text ?_
  cases hp : p.isSet with
  | true =>
    have hscan : scanBreakpoint p.text = some (p.btype, p.maddr, p.kind) := p.scans
    rw [if_pos rfl, respond, setBreakpoints, hscan, receive, if_pos hp]
    rcases p.known with h0 | h2
    · simp only [if_pos h0]
      rfl
    · have hne : p.btype ≠ 0 := by rw [h2]; decide
      simp only [if_neg hne, if_pos h2]
      rfl
  | false =>
    rw [receive, hp]
    rfl

/-- A `Z` packet inserts what it names. -/
theorem inForce_insert {d : DebugServer} {k : Int × U64} (hp : p.isSet = true) :
    InForce (receive d p) k ↔ k = p.key ∨ InForce d k := by
  obtain ⟨b, a⟩ := k
  rw [receive, if_pos hp]
  rcases p.known with h0 | h2
  · rw [if_pos h0]
    simp only [InForce, BreakpointPacket.key, h0, Prod.mk.injEq, List.map_append, List.map_cons,
      List.map_nil, List.mem_append, List.mem_singleton]
    tauto
  · have hne : p.btype ≠ 0 := by rw [h2]; decide
    rw [if_neg hne]
    simp only [InForce, BreakpointPacket.key, h2, Prod.mk.injEq, List.map_append, List.map_cons,
      List.map_nil, List.mem_append, List.mem_singleton]
    tauto

/-- A `z` packet removes everything. -/
theorem inForce_remove {d : DebugServer} {k : Int × U64} (hp : p.isSet = false) :
    ¬ InForce (receive d p) k := by
  simp [receive, hp, InForce]

end Packet

/-! ### Sequences of packets -/

theorem send_server (u : DebuggerUse) (p : BreakpointPacket) :
    (u.send p).session.server = receive u.session.server p := by
  rw [DebuggerUse.send, dispatch_text]
  rfl

theorem DebuggerUse.isSet_start (s : DebugSession) : (DebuggerUse.start s).IsSet := by
  intro k
  simp [DebuggerUse.start, InForce, Calls.not_latest_nil]

theorem DebuggerUse.IsSet.send {u : DebuggerUse} {p : BreakpointPacket} (h : u.IsSet)
    (hp : RemovesLast u.session.server p) : (u.send p).IsSet := by
  intro k
  have hpackets : (u.send p).packets = u.packets ++ [p] := rfl
  rw [send_server, hpackets, Calls.latest_append, ← h k]
  cases hset : p.isSet with
  | true =>
    rw [inForce_insert hset]
    simp [BreakpointPacket.Inserts, BreakpointPacket.Removes, hset, eq_comm]
  | false =>
    have honly := hp hset k
    simp only [inForce_remove hset, BreakpointPacket.Inserts, BreakpointPacket.Removes, hset]
    constructor
    · exact False.elim
    · rintro (⟨hc, -⟩ | ⟨hin, hnot⟩)
      · cases hc
      · exact hnot ⟨trivial, (honly hin).symm⟩

/-- A removal that finds another breakpoint removes it too. -/
theorem DebuggerUse.IsSet.removesLast {u : DebuggerUse} {p : BreakpointPacket} (h : u.IsSet)
    (h' : (u.send p).IsSet) : RemovesLast u.session.server p := by
  intro hset k hin
  have hk := h' k
  have hpackets : (u.send p).packets = u.packets ++ [p] := rfl
  rw [send_server, hpackets, Calls.latest_append, ← h k] at hk
  by_contra hne
  exact inForce_remove hset (hk.mpr (Or.inr ⟨hin, fun hr => hne hr.2.symm⟩))

/-- For every sequence of packets: the breakpoints in force are throughout the pairs whose last
    packet was a `Z` exactly if every `z` finds nothing in force but the pair it names. -/
theorem breakpoints_form_a_set_iff (s : DebugSession) (packets : List BreakpointPacket) :
    Calls.Always DebuggerUse.send DebuggerUse.IsSet (.start s) packets ↔
      Calls.Respects DebuggerUse.send (fun u => RemovesLast u.session.server) (.start s) packets :=
  Calls.always_iff_respects id DebuggerUse.IsSet.send DebuggerUse.IsSet.removesLast
    (DebuggerUse.isSet_start s)

/-- The characters of the fields, looked at one by one. -/
theorem plain_of_all {fields : List Char}
    (h : (fields.all fun c => (Text.hexValue c).isSome || decide (c = ',')) = true) :
    ∀ c ∈ fields, (Text.hexValue c).isSome ∨ c = ',' := by
  intro c hc
  simpa using List.all_eq_true.mp h c hc

/-- `Z0,100,4`, `Z0,200,4` and `z0,100,4` leave no breakpoint. -/
theorem removal_clears_other_breakpoint : ¬ ∀ (s : DebugSession) packets,
    Calls.Always DebuggerUse.send DebuggerUse.IsSet (.start s) packets := by
  intro h
  let m : Memory := { physMem := { oracle := { rand := fun _ => 0, heap := fun _ => 0 } } }
  let at100 : Bool → BreakpointPacket := fun isSet =>
    { isSet, fields := "0,100,4".toList, btype := 0, maddr := 0x100, kind := 4
      plain := plain_of_all (by decide), scans := by decide, known := Or.inl rfl }
  let at200 : BreakpointPacket :=
    { isSet := true, fields := "0,200,4".toList, btype := 0, maddr := 0x200, kind := 4
      plain := plain_of_all (by decide), scans := by decide, known := Or.inl rfl }
  have hset := h { server := { core := 0 }, cpu := {}, memory := m, pc := 0 }
    [at100 true, at200, at100 false] 3 (0, 0x200)
  have hgone : ¬ InForce ((DebuggerUse.send (DebuggerUse.send (DebuggerUse.send (.start
      { server := { core := 0 }, cpu := {}, memory := m, pc := 0 }) (at100 true)) at200)
      (at100 false)).session.server) (0, 0x200) := by
    rw [send_server]
    exact inForce_remove rfl
  refine hgone (hset.mpr ⟨[at100 true], at200, [at100 false], rfl, ⟨rfl, rfl⟩, ?_⟩)
  intro p hp hr
  rw [List.mem_singleton.mp hp] at hr
  exact absurd hr.2 (by decide)

end DebugServer

end Dimebox
