import Dimebox.Inspection
import Dimebox.SavedImage

/-! The length of an `m` request.

    A client writes address and length in hexadecimal. `ReadMemory` scans them with `%llx,%d`: the
    length is read in decimal, up to the first letter. A length of one decimal digit is the same in
    both; of any longer one `%d` makes a smaller number or none at all, and the reply is too short. -/

namespace Dimebox

namespace Memory

/-- The `n` bytes from `a` are in RAM and have been written. -/
def DefinedRam (m : Memory) (a : U64) (n : Nat) : Prop :=
  ∀ b ∈ PhysicalMemory.span a n, m.validatePhysicalMemoryAddress b false = .ok b ∧
    m.deviceAt b = none ∧ m.physMem.isDefined b = true

theorem DefinedRam.reachesStore {m : Memory} {a : U64} {n : Nat} (h : m.DefinedRam a n)
    (hn : 1 ≤ n) : a &&& m.paMask = a ∧ m.ReachesStore a n := by
  have hfirst : a ∈ PhysicalMemory.span a n :=
    PhysicalMemory.mem_span.mpr ⟨0, hn, (BitVec.add_zero a).symm⟩
  have hlast : a + BitVec.ofInt 64 n - 1 ∈ PhysicalMemory.span a n := by
    refine PhysicalMemory.mem_span.mpr ⟨n - 1, by omega, ?_⟩
    apply BitVec.eq_of_toNat_eq
    rw [BitVec.ofInt_natCast, BitVec.toNat_sub, BitVec.toNat_add, BitVec.toNat_add,
      BitVec.toNat_ofNat, BitVec.toNat_ofNat]
    have hone : (1 : U64).toNat = 1 := rfl
    omega
  obtain ⟨hvalid, hdev, -⟩ := h a hfirst
  have hcheck : m.checkAddresses a n false = .ok a := by
    rw [checkAddresses, hvalid]
    show (m.validatePhysicalMemoryAddress (a + BitVec.ofInt 64 n - 1) false >>= _) = _
    rw [(h _ hlast).1]
    rfl
  have hmask := checkAddresses_ok hcheck
  exact ⟨hmask.symm, ⟨a, hcheck⟩, hmask ▸ hdev⟩

end Memory

namespace DebugServer

open PhysicalMemory (span)

/-- An `m` request with an address and a length. -/
def readRequest (address length : List Char) : List Char := 'm' :: (address ++ ',' :: length)

section Request

variable {address length : List Char} {a : U64} {n : Nat}
  (haddress : Text.Spells address a.toNat) (hlength : Text.Spells length n)
include haddress

theorem memoryFields_readRequest : memoryFields (readRequest address length) =
    (Text.scanDec length).map fun r => (a.toNat, r.1) := by
  have hscan : Text.scanHex (readRequest address length).length (address ++ ',' :: length) =
      some (a.toNat, ',' :: length) := by
    refine Text.scanHex_run haddress a.isLt ?_ (.inr ?_)
    · rw [readRequest, List.length_cons, List.length_append]
      omega
    · rintro c hc
      obtain rfl := Option.some.inj hc
      exact ⟨rfl, by decide, by decide⟩
  rw [memoryFields]
  have hdrop : (readRequest address length).drop 1 = address ++ ',' :: length := rfl
  rw [hdrop, hscan]
  dsimp only [Option.bind_eq_bind, Option.bind_some]
  rw [Text.scanChar, if_pos rfl, Option.bind_some]
  cases Text.scanDec length <;> rfl

include hlength

theorem action_readRequest : Rsp.action (readRequest address length) = .ok (some .readMemory) := by
  have hno : ∀ c, Text.hexValue c = none → c ≠ 'm' → c ≠ ',' → c ∉ readRequest address length := by
    intro c hc hm hcomma hmem
    have hdigit : ∀ s : List Char, (∀ d ∈ s, (Text.hexValue d).isSome) → c ∉ s := by
      intro s hs hcs
      have hsome := hs c hcs
      rw [hc] at hsome
      cases hsome
    rcases List.mem_cons.mp hmem with h | h
    · exact hm h
    · rcases List.mem_append.mp h with h | h
      · exact hdigit address haddress.digits h
      · rcases List.mem_cons.mp h with h | h
        · exact hcomma h
        · exact hdigit length hlength.digits h
  refine action_of_byFirstChar rfl fun name hname => ?_
  exact not_contains_name (hno 'q' rfl (by decide) (by decide)) (hno 'v' rfl (by decide) (by decide))
    hname

end Request

/-- The reply to `m` is what `ReadMemory` answers. -/
theorem answer_read {s : DebugSession} {pdata : List Char}
    (haction : Rsp.action pdata = .ok (some .readMemory)) :
    answer s pdata = (Effect.result ((readMemory pdata).run s)).map Rsp.encode := by
  have hne : pdata ≠ [] := by
    rintro rfl
    exact absurd haction (by decide)
  cases hrun : (readMemory pdata).run s with
  | ok text s' => rw [answer, dispatch_read_of_run haction hrun]; rfl
  | error f s' =>
    rw [answer, dispatch, if_neg (by simpa using hne), EStateM.run_bind, haction, Effect.run_lift_ok]
    dsimp only
    rw [EStateM.run_bind, respond, hrun]
    rfl

theorem length_digits (bytes : List Byte) :
    (bytes.flatMap fun b => Text.hexPadded 2 b.toNat).length = 2 * bytes.length := by
  induction bytes with
  | nil => rfl
  | cons b bytes ih =>
    rw [List.flatMap_cons, List.length_append, ih, Text.hexPadded_two b.isLt]
    simp only [List.length_cons, List.length_nil]
    omega

/-- A reply has two digits for each byte asked for at most, if it is not an error. -/
theorem length_readMemory {s s' : DebugSession} {pdata text : List Char} {n : Nat} (hn : 2 ≤ n)
    (hscan : ∀ a k, scanAddressSize pdata = some (a, k) → k < n)
    (hrun : (readMemory pdata).run s = .ok text s') : text.length < 2 * n := by
  have herror : "E0".toList.length = 2 ∧ "E1".toList.length = 2 := by decide
  cases hfields : scanAddressSize pdata with
  | none =>
    rw [readMemory, hfields] at hrun
    cases hrun
    omega
  | some r =>
    obtain ⟨a, k⟩ := r
    have hk := hscan a k hfields
    by_cases hneg : k < 0
    · rw [readMemory, hfields] at hrun
      dsimp only at hrun
      rw [if_pos hneg] at hrun
      cases hrun
    · rw [readMemory_scanned hfields (Int.not_lt.mp hneg)] at hrun
      cases hread : (Memory.readPhysicalMemory a k (List.replicate k.toNat 0) false true).run
          s.memory with
      | error f m =>
        rw [hread] at hrun
        cases f <;> cases hrun <;> omega
      | ok r m =>
        rw [hread] at hrun
        dsimp only at hrun
        cases hrun
        split_ifs
        · omega
        · rw [length_digits, List.length_take]
          omega

theorem length_encode (text : List Char) : (Rsp.encode text).length = text.length + 4 := by
  have hsum : (Text.hexPadded 2 (Rsp.checksum text)).length = 2 := by
    rw [Text.hexPadded_two (Rsp.checksum_lt text)]
    rfl
  simp only [Rsp.encode, List.length_append, List.length_singleton, hsum]
  omega

/-- For every address and every length of bytes that are in RAM and defined: `m` with the two in
    hexadecimal is answered with the bytes if and only if the length is at most 9. -/
theorem read_request_answered_iff (s : DebugSession) (a : U64) (n : Nat)
    (address length : List Char) (haddress : Text.Spells address a.toNat)
    (hlength : Text.Spells length n) (hn : 1 ≤ n) (hram : s.memory.DefinedRam a n) :
    answer s (readRequest address length) = some (Rsp.encode (shownBytes s a n)) ↔ n ≤ 9 := by
  have haction := action_readRequest haddress hlength
  have hfields := scanAddressSize_eq (readRequest address length)
  rw [memoryFields_readRequest haddress, Option.map_map] at hfields
  have hdec := Text.scanDec_spells hlength
  obtain ⟨hmask, hstore⟩ := hram.reachesStore hn
  by_cases hsmall : n ≤ 9
  · refine iff_of_true ?_ hsmall
    rw [if_pos hsmall] at hdec
    have hscan : scanAddressSize (readRequest address length) = some (a, (n : Int)) := by
      rw [hfields, hdec, Option.map_some, Function.comp_apply, BitVec.ofNat_toNat, BitVec.setWidth_eq,
        intOf_of_lt (by omega) (by omega)]
    have hrun := dispatch_read_valid haction hscan (by omega) hstore (by omega)
    have hbytes := PhysicalMemory.bytes_pullBytes true (c := fun b =>
      (s.memory.physMem.seen b).getD 0) fun b hb => by
        rw [PhysicalMemory.seen_of_byteAt (hram b hb).2.2]
        rfl
    have hundef := (PhysicalMemory.pullBytes_undef_eq_zero_iff n s.memory.physMem a).mpr
      fun b hb => (hram b hb).2.2
    dsimp only at hrun
    rw [hmask, Int.toNat_natCast, hbytes, hundef, if_neg (fun h => h rfl)] at hrun
    rw [answer, hrun, shownBytes, hmask, Int.toNat_natCast]
    rfl
  · refine iff_of_false ?_ hsmall
    rw [if_neg hsmall] at hdec
    intro hreply
    rw [answer_read haction, Option.map_eq_some_iff] at hreply
    obtain ⟨text, htext, heq⟩ := hreply
    obtain ⟨s', hrun⟩ := Effect.ok_of_result htext
    have hshort : text.length < 2 * n := by
      refine length_readMemory (by omega) (fun a' k hscan => ?_) hrun
      rw [hfields, Option.map_eq_some_iff] at hscan
      obtain ⟨⟨v, rest⟩, hv, hk⟩ := hscan
      obtain ⟨hpos, hlt⟩ := hdec v rest hv
      obtain ⟨-, rfl⟩ := Prod.mk.inj hk
      by_cases hfits : v < 2 ^ 31
      · rw [intOf_of_lt (by omega) hfits]
        exact hlt
      · have hint := BitVec.toInt_lt (x := BitVec.ofInt 32 v)
        dsimp only
        rw [intOf]
        omega
    have hlen := congrArg List.length heq
    rw [length_encode, length_encode, shownBytes, length_digits, List.length_map,
      PhysicalMemory.length_span, Int.toNat_natCast] at hlen
    omega

/-- Sixteen bytes at 0x1000 have been written. -/
def sixteens : DebugSession :=
  withStore sevens (sevens.memory.physMem.putBytes 0x1000 false (List.replicate 16 0x5a))

theorem sixteens_defined {n : Nat} (hn : n ≤ 16) : sixteens.memory.DefinedRam 0x1000 n := by
  intro b hb
  obtain ⟨i, hi, rfl⟩ := PhysicalMemory.mem_span.mp hb
  have hlow : ∀ i < 16, Memory.low32 (0x1000 + BitVec.ofNat 64 i) = 0x1000 + BitVec.ofNat 64 i := by
    decide
  have hvalid : sixteens.memory.validatePhysicalMemoryAddress (0x1000 + BitVec.ofNat 64 i) false =
      .ok (0x1000 + BitVec.ofNat 64 i) := by
    rw [Memory.validate_eq ⟨rfl, rfl, rfl⟩, hlow i (by omega)]
  refine ⟨hvalid, rfl, ?_⟩
  refine (PhysicalMemory.isDefined_putBytes ..).trans ?_
  rw [List.length_replicate, decide_eq_true (PhysicalMemory.mem_span.mpr ⟨i, by omega, rfl⟩),
    Bool.or_true]

/-- Eight bytes. -/
theorem read_eight_bytes :
    answer sixteens (readRequest "1000".toList "8".toList) =
      some (Rsp.encode (shownBytes sixteens 0x1000 8)) := by
  have haddress : Text.Spells "1000".toList (0x1000 : U64).toNat :=
    ⟨by decide, List.all_eq_true.mp (by decide), by decide⟩
  have hlength : Text.Spells "8".toList 8 := ⟨by decide, List.all_eq_true.mp (by decide), by decide⟩
  exact (read_request_answered_iff sixteens 0x1000 8 _ _ haddress hlength (by decide)
    (sixteens_defined (by decide))).mpr (by decide)

/-- Sixteen bytes, asked for with the length `10`: the reply has ten. -/
theorem sixteen_bytes_read_as_ten :
    answer sixteens (readRequest "1000".toList "10".toList) =
        some (Rsp.encode (shownBytes sixteens 0x1000 10)) ∧
      ¬ ∀ (s : DebugSession) (a : U64) (n : Nat) (address length : List Char),
        Text.Spells address a.toNat → Text.Spells length n → 1 ≤ n → s.memory.DefinedRam a n →
        answer s (readRequest address length) = some (Rsp.encode (shownBytes s a n)) := by
  have hten : answer sixteens (readRequest "1000".toList "10".toList) =
      some (Rsp.encode (shownBytes sixteens 0x1000 10)) := by decide +kernel
  have haddress : Text.Spells "1000".toList (0x1000 : U64).toNat :=
    ⟨by decide, List.all_eq_true.mp (by decide), by decide⟩
  have hlength : Text.Spells "10".toList 16 :=
    ⟨by decide, List.all_eq_true.mp (by decide), by decide⟩
  refine ⟨hten, fun h => ?_⟩
  have hsixteen := h sixteens 0x1000 16 _ _ haddress hlength (by decide)
    (sixteens_defined (by decide))
  rw [hten] at hsixteen
  exact absurd hsixteen (by decide +kernel)

end DebugServer

end Dimebox
