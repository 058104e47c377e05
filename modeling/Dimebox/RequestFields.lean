import Dimebox.Session
import Mathlib.Algebra.Group.Int.Defs

/-! What is in a request: its command and its fields.

    `Dispatch` goes by the first character of a request unless one of the long names occurs in it.
    The fields are what the formats of the handlers scan, before they are stored in an `int` or an
    `unsigned`; data is two digits for each byte after a `:` or a `=`. -/

namespace Dimebox

namespace DebugServer

/-! ### What a request says -/

/-- The command with fields that the first character of a request names. -/
def requestAction (pdata : List Char) : Option Rsp.Action :=
  match pdata.head? with
  | some 'm' => some .readMemory
  | some 'M' => some .writeMemory
  | some 'p' => some .readRegister
  | some 'P' => some .writeRegister
  | some 'Z' => some .setBreakpoint
  | _ => none

/-- The commands with fields. -/
def withFields : List (Option Rsp.Action) :=
  [some .readMemory, some .writeMemory, some .readRegister, some .writeRegister,
    some .setBreakpoint]

/-- The names `Dispatch` looks for, anywhere in the request, before it looks at the first
    character. -/
def reportNames : List String :=
  ["qSupported", "vMustReplyEmpty", "qTStatus", "qTf", "qTs", "qfThreadInfo", "qsThreadInfo",
    "qAttached", "qOffsets"]

/-- The names it looks for before it comes to the command. -/
def namesBefore : Option Rsp.Action → List String
  | some .readMemory => reportNames
  | some .setBreakpoint => reportNames ++ ["vFile", "qSymbol::"]
  | _ => reportNames ++ ["vFile", "qSymbol::", "vCont?", "vCont", "vStep", "vKill"]

/-- None of the names gets between the request and the command of its first character. -/
def ByFirstChar (pdata : List Char) : Prop :=
  ∀ name ∈ namesBefore (requestAction pdata), Text.contains name.toList pdata = false

/-- The register number of a `p` or `P` request. -/
def registerField (pdata : List Char) : Option Nat :=
  (Text.scanHex pdata.length (pdata.drop 1)).map (·.1)

/-- Address and size of an `m` or `M` request, before they are stored in variables. -/
def memoryFields (pdata : List Char) : Option (Nat × Int) := do
  let (maddr, cs) ← Text.scanHex pdata.length (pdata.drop 1)
  let cs ← Text.scanChar ',' cs
  let (msize, _) ← Text.scanDec cs
  return (maddr, msize)

/-- Type, address and size of a `Z` request, before they are stored in variables. -/
def breakpointFields (pdata : List Char) : Option (Int × Nat × Int) := do
  let (btype, cs) ← Text.scanDec (pdata.drop 1)
  let cs ← Text.scanChar ',' cs
  let (maddr, cs) ← Text.scanHex (cs.length + 1) cs
  let cs ← Text.scanChar ',' cs
  let (msize, _) ← Text.scanDec cs
  return (btype, maddr, msize)

/-- The scan of the digits of byte `k` of the data after position `pos`. -/
def digitPair (pdata : List Char) (pos k : Nat) : Option (Nat × List Char) :=
  Text.scanHex 2 (pdata.drop (pos + 1 + 2 * k))

/-- The first `n` bytes after position `pos` scan. -/
def Scans (pdata : List Char) (pos n : Nat) : Prop := ∀ k < n, (digitPair pdata pos k).isSome

/-- There are two digits for each of `n` bytes after position `pos`. -/
structure Complete (pdata : List Char) (pos n : Nat) : Prop where
  scans : Scans pdata pos n
  length : pos + 1 + 2 * n ≤ pdata.length

theorem scanAddressSize_eq (pdata : List Char) : scanAddressSize pdata =
    (memoryFields pdata).map fun f => (BitVec.ofNat 64 f.1, intOf f.2) := by
  rw [scanAddressSize, memoryFields]
  cases Text.scanHex pdata.length (pdata.drop 1) with
  | none => rfl
  | some r =>
    dsimp only [Option.bind_eq_bind, Option.bind_some]
    cases Text.scanChar ',' r.2 with
    | none => rfl
    | some cs =>
      dsimp only [Option.bind_some]
      cases Text.scanDec cs <;> rfl

theorem scanBreakpoint_eq (pdata : List Char) : scanBreakpoint pdata =
    (breakpointFields pdata).map fun f => (intOf f.1, BitVec.ofNat 64 f.2.1, intOf f.2.2) := by
  rw [scanBreakpoint, breakpointFields]
  cases Text.scanDec (pdata.drop 1) with
  | none => rfl
  | some t =>
    dsimp only [Option.bind_eq_bind, Option.bind_some]
    cases Text.scanChar ',' t.2 with
    | none => rfl
    | some cs =>
      dsimp only [Option.bind_some]
      cases Text.scanHex (cs.length + 1) cs with
      | none => rfl
      | some a =>
        dsimp only [Option.bind_some]
        cases Text.scanChar ',' a.2 with
        | none => rfl
        | some cs =>
          dsimp only [Option.bind_some]
          cases Text.scanDec cs <;> rfl

/-- A number that fits an `int` is stored as it is. -/
theorem intOf_of_lt {n : Int} (h : -2 ^ 31 ≤ n) (h' : n < 2 ^ 31) : intOf n = n := by
  rw [intOf, BitVec.toInt_ofInt]
  exact Int.bmod_eq_of_le (by omega) (by omega)

/-- All bytes scan, or one is the first that does not. -/
theorem scans_or_first (pdata : List Char) (pos n : Nat) : Scans pdata pos n ∨
    ∃ k < n, digitPair pdata pos k = none ∧ Scans pdata pos k := by
  induction n with
  | zero => exact .inl fun _ hk => absurd hk (Nat.not_lt_zero _)
  | succ n ih =>
    rcases ih with hall | ⟨k, hk, hfirst⟩
    · cases hn : digitPair pdata pos n with
      | none => exact .inr ⟨n, Nat.lt_succ_self n, hn, hall⟩
      | some r =>
        refine .inl fun k hk => ?_
        rcases Nat.lt_succ_iff_lt_or_eq.mp hk with hlt | rfl
        · exact hall k hlt
        · rw [hn]
          rfl
    · exact .inr ⟨k, Nat.lt_succ_of_lt hk, hfirst⟩

/-- Where a byte does not scan, no more than the bytes before it do. -/
theorem Scans.le {pdata : List Char} {pos n k : Nat} (h : Scans pdata pos n)
    (hfail : digitPair pdata pos k = none) : n ≤ k := by
  by_contra hlt
  have hk := h k (Nat.lt_of_not_le hlt)
  rw [hfail] at hk
  cases hk

theorem digitPair_succ (pdata : List Char) (pos k : Nat) :
    digitPair pdata (pos + 2) k = digitPair pdata pos (k + 1) := by
  rw [digitPair, digitPair]
  congr 2
  omega

theorem digitPair_zero (pdata : List Char) (pos : Nat) :
    digitPair pdata pos 0 = Text.scanHex 2 (pdata.drop (pos + 1)) := rfl

theorem length_of_digitPair {pdata : List Char} {pos k : Nat} (h : (digitPair pdata pos k).isSome) :
    pos + 1 + 2 * k < pdata.length := by
  by_contra hge
  rw [digitPair, List.drop_eq_nil_of_le (by omega)] at h
  cases h

theorem Scans.tail {pdata : List Char} {pos n : Nat} (h : Scans pdata pos (n + 1)) :
    Scans pdata (pos + 2) n := by
  intro k hk
  rw [digitPair_succ]
  exact h (k + 1) (Nat.succ_lt_succ hk)

/-- One turn of the loop of `WriteMemory`. -/
theorem scanBytes_succ {pdata : List Char} {pos : Nat} (h : (digitPair pdata pos 0).isSome)
    (n : Nat) : ∃ b : Byte, scanBytes pdata (n + 1) pos =
      (scanBytes pdata n (pos + 2)).map (Option.map (b :: ·)) := by
  have hlen := length_of_digitPair h
  rw [digitPair_zero] at h
  obtain ⟨r, hr⟩ := Option.isSome_iff_exists.mp h
  rw [scanBytes, if_neg (by omega), hr]
  refine ⟨BitVec.ofNat 8 r.1, ?_⟩
  cases scanBytes pdata n (pos + 2) <;> rfl

/-- Where everything scans, the loop gets the bytes. -/
theorem scanBytes_of_scans {pdata : List Char} {n pos : Nat} (h : Scans pdata pos n) :
    ∃ mbytes, scanBytes pdata n pos = .ok (some mbytes) := by
  induction n generalizing pos with
  | zero => exact ⟨[], rfl⟩
  | succ n ih =>
    obtain ⟨b, hloop⟩ := scanBytes_succ (h 0 (Nat.succ_pos n)) n
    obtain ⟨rest, hrest⟩ := ih h.tail
    rw [hloop, hrest]
    exact ⟨b :: rest, rfl⟩

/-- At the first byte that does not scan the loop gives up, unless the position is past the end of
    the string: then `substr` throws. -/
theorem scanBytes_of_first {pdata : List Char} {n pos k : Nat} (hk : k < n)
    (hfail : digitPair pdata pos k = none) (h : Scans pdata pos k) : scanBytes pdata n pos =
      if pdata.length < pos + 1 + 2 * k then .error .outOfRange else .ok none := by
  induction k generalizing n pos with
  | zero =>
    cases n with
    | zero => exact absurd hk (Nat.not_lt_zero _)
    | succ n =>
      rw [digitPair_zero] at hfail
      rw [scanBytes, hfail]
  | succ k ih =>
    cases n with
    | zero => exact absurd hk (Nat.not_lt_zero _)
    | succ n =>
      obtain ⟨b, hloop⟩ := scanBytes_succ (h 0 (Nat.succ_pos k)) n
      rw [← digitPair_succ] at hfail
      have hpos : pos + 2 + 1 + 2 * k = pos + 1 + 2 * (k + 1) := by omega
      rw [hloop, ih (Nat.lt_of_succ_lt_succ hk) hfail h.tail, hpos]
      split_ifs <;> rfl

theorem decodedPairs_short (encoded : List Char) (is : List Nat) (success : Bool) (rv : U32)
    (h : ∃ i ∈ is, encoded.length < i * 2) :
    decodedPairs encoded is success rv = .error .undefined := by
  induction is generalizing success rv with
  | nil =>
    obtain ⟨i, hi, -⟩ := h
    exact absurd hi List.not_mem_nil
  | cons i is ih =>
    rw [decodedPairs]
    by_cases hi : encoded.length < i * 2
    · rw [if_pos hi]
    · rw [if_neg hi]
      have hrest : ∃ j ∈ is, encoded.length < j * 2 := by
        obtain ⟨j, hj, hlt⟩ := h
        rcases List.mem_cons.mp hj with rfl | hj
        · exact absurd hlt hi
        · exact ⟨j, hj, hlt⟩
      cases Text.scanHex 2 (encoded.drop (i * 2)) with
      | none => exact ih _ _ hrest
      | some r => exact ih _ _ hrest

theorem decodedPairs_ok (encoded : List Char) (is : List Nat) (success : Bool) (rv : U32)
    (h : ∀ i ∈ is, i * 2 ≤ encoded.length) : ∃ rv', decodedPairs encoded is success rv =
      .ok (success && is.all fun i => (Text.scanHex 2 (encoded.drop (i * 2))).isSome, rv') := by
  induction is generalizing success rv with
  | nil => exact ⟨rv, by simp [decodedPairs]⟩
  | cons i is ih =>
    have hi := h i List.mem_cons_self
    have hrest := fun j hj => h j (List.mem_cons_of_mem _ hj)
    rw [decodedPairs, if_neg (by omega), List.all_cons]
    cases Text.scanHex 2 (encoded.drop (i * 2)) with
    | none =>
      obtain ⟨rv', hpairs⟩ := ih false rv hrest
      exact ⟨rv', by simp [hpairs]⟩
    | some r =>
      obtain ⟨rv', hpairs⟩ := ih success (rv ||| (BitVec.ofNat 32 r.1 <<< (i * 8))) hrest
      exact ⟨rv', by simp [hpairs]⟩

/-- `decoded_le4` looks at six characters at least. -/
theorem decodedLe4_short {pdata : List Char} {pos : Nat} (h : pdata.length < pos + 7) :
    decodedLe4 (pdata.drop (pos + 1)) = .error .undefined := by
  rw [decodedLe4, decodedPairs_short _ _ _ _ ⟨3, by simp, by rw [List.length_drop]; omega⟩]
  rfl

theorem decodedLe4_ok {pdata : List Char} {pos : Nat} (h : pos + 7 ≤ pdata.length) :
    (Scans pdata pos 4 ∧ ∃ rval, decodedLe4 (pdata.drop (pos + 1)) = .ok (some rval)) ∨
      ¬ Scans pdata pos 4 ∧ decodedLe4 (pdata.drop (pos + 1)) = .ok none := by
  obtain ⟨rv, hpairs⟩ := decodedPairs_ok (pdata.drop (pos + 1)) [0, 1, 2, 3] true 0 fun i hi => by
    have hle : i ≤ 3 := by simp at hi; omega
    rw [List.length_drop]
    omega
  have hall : ([0, 1, 2, 3].all fun i =>
      (Text.scanHex 2 ((pdata.drop (pos + 1)).drop (i * 2))).isSome) = true ↔ Scans pdata pos 4 := by
    rw [List.all_eq_true]
    constructor
    · intro h k hk
      rw [digitPair, Nat.mul_comm 2 k, ← List.drop_drop]
      exact h k (by simp; omega)
    · intro h i hi
      have hk := h i (by simp at hi; omega)
      rwa [digitPair, Nat.mul_comm 2 i, ← List.drop_drop] at hk
  rw [decodedLe4, hpairs]
  by_cases hscans : Scans pdata pos 4
  · rw [hall.mpr hscans]
    exact .inl ⟨hscans, _, rfl⟩
  · rw [Bool.eq_false_iff.mpr fun h => hscans (hall.mp h)]
    exact .inr ⟨hscans, rfl⟩

/-! ### The selection of the command -/

theorem head_of_getD {pdata : List Char} {c : Char} (h : pdata.getD 0 '\x00' = c)
    (hc : c ≠ '\x00') : pdata.head? = some c := by
  cases pdata with
  | nil => exact absurd h.symm hc
  | cons d ds => exact congrArg some h

/-- A command with fields is picked by the first character only. -/
theorem requestAction_of_action {pdata : List Char} {a : Option Rsp.Action}
    (h : Rsp.action pdata = .ok a) (ha : a ∈ withFields) :
    requestAction pdata = a ∧ ByFirstChar pdata := by
  have hskip : ∀ {c : Prop} [Decidable c] {b : Rsp.Action} {y : Except Fault (Option Rsp.Action)},
      (if c then .ok (some b) else y) = .ok a → some b ∉ withFields → y = .ok a := by
    intro c _ b y hite hb
    split at hite
    · cases hite
      exact absurd ha hb
    · exact hite
  have hname : ∀ {name : String} {b : Rsp.Action} {y : Except Fault (Option Rsp.Action)},
      (if Text.contains name.toList pdata then .ok (some b) else y) = .ok a →
      some b ∉ withFields → Text.contains name.toList pdata = false ∧ y = .ok a := by
    intro name b y hite hb
    cases hc : Text.contains name.toList pdata with
    | true =>
      rw [hc, if_pos rfl] at hite
      cases hite
      exact absurd ha hb
    | false => exact ⟨rfl, by rwa [hc, if_neg Bool.false_ne_true] at hite⟩
  have hfirst : ∀ {c : Char}, pdata.getD 0 '\x00' = c → c ≠ '\x00' →
      requestAction pdata = requestAction [c] := by
    intro c hget hc
    rw [requestAction, head_of_getD hget hc]
    rfl
  unfold Rsp.action at h
  obtain ⟨h1, h⟩ := hname h (by decide)
  obtain ⟨h2, h⟩ := hname h (by decide)
  replace h := hskip h (by decide)
  by_cases hhc : pdata = "Hc-".toList
  · rw [if_pos hhc] at h
    cases h
  · rw [if_neg hhc] at h
    obtain ⟨h3, h⟩ := hname (hskip h (by decide)) (by decide)
    obtain ⟨h4, h⟩ := hname h (by decide)
    obtain ⟨h5, h⟩ := hname h (by decide)
    obtain ⟨h6, h⟩ := hname h (by decide)
    obtain ⟨h7, h⟩ := hname h (by decide)
    obtain ⟨h8, h⟩ := hname (hskip h (by decide)) (by decide)
    obtain ⟨h9, h⟩ := hname h (by decide)
    have hreport : ∀ name ∈ reportNames, Text.contains name.toList pdata = false := by
      simp only [reportNames, List.forall_mem_cons, h1, h2, h3, h4, h5, h6, h7, h8, h9, true_and]
      exact fun _ h => absurd h List.not_mem_nil
    replace h := hskip (hskip h (by decide)) (by decide)
    by_cases hm : pdata.getD 0 '\x00' = 'm'
    · rw [if_pos hm] at h
      cases h
      have hr : requestAction pdata = some .readMemory := hfirst hm (by decide)
      rw [ByFirstChar, hr]
      exact ⟨rfl, hreport⟩
    · rw [if_neg hm] at h
      obtain ⟨h10, h⟩ := hname h (by decide)
      obtain ⟨h11, h⟩ := hname h (by decide)
      by_cases hz : pdata.getD 0 '\x00' = 'Z'
      · rw [if_pos hz] at h
        cases h
        have hr : requestAction pdata = some .setBreakpoint := hfirst hz (by decide)
        rw [ByFirstChar, hr]
        refine ⟨rfl, List.forall_mem_append.mpr ⟨hreport, ?_⟩⟩
        simp only [List.forall_mem_cons, h10, h11, true_and]
        exact fun _ h => absurd h List.not_mem_nil
      · rw [if_neg hz] at h
        obtain ⟨h12, h⟩ := hname h (by decide)
        obtain ⟨h13, h⟩ := hname h (by decide)
        obtain ⟨h14, h⟩ := hname h (by decide)
        obtain ⟨h15, h⟩ := hname h (by decide)
        have hnames : ∀ name ∈ reportNames ++
            ["vFile", "qSymbol::", "vCont?", "vCont", "vStep", "vKill"],
            Text.contains name.toList pdata = false := by
          refine List.forall_mem_append.mpr ⟨hreport, ?_⟩
          simp only [List.forall_mem_cons, h10, h11, h12, h13, h14, h15, true_and]
          exact fun _ h => absurd h List.not_mem_nil
        have hchar : Rsp.firstCharAction (pdata.getD 0 '\x00') = a := Except.ok.inj h
        rw [ByFirstChar]
        unfold Rsp.firstCharAction at hchar
        split at hchar
        all_goals
          rename_i hc
          subst hchar
          first
            | exact absurd ha (by decide)
            | rw [hfirst hc (by decide)]; exact ⟨rfl, hnames⟩

/-- What `Dispatch` looks for in a request that begins with none of `H`, `q`, `?` and `g`. -/
theorem action_of_names {c : Char} {cs : List Char} (hc : c ∉ "Hq?g".toList)
    (h : ∀ name ∈ reportNames, Text.contains name.toList (c :: cs) = false) :
    Rsp.action (c :: cs) =
      if c = 'm' then .ok (some .readMemory)
      else if Text.contains "vFile".toList (c :: cs) then .ok (some .fileOperation)
      else if Text.contains "qSymbol::".toList (c :: cs) then .ok (some .requestSymbolInfo)
      else if c = 'Z' then .ok (some .setBreakpoint)
      else if Text.contains "vCont?".toList (c :: cs) then .ok (some .requestSupportedActions)
      else if Text.contains "vCont".toList (c :: cs) then .ok (some .continueThread)
      else if Text.contains "vStep".toList (c :: cs) then .ok (some .stepThread)
      else if Text.contains "vKill".toList (c :: cs) then .ok (some .killTarget)
      else .ok (Rsp.firstCharAction c) := by
  have hhead : ∀ (text : List Char), text.head? ∈ "Hq?g".toList.map some →
      ∀ k, (c :: cs).take (k + 1) ≠ text := by
    rintro text htext k rfl
    obtain ⟨d, hd, heq⟩ := List.mem_map.mp htext
    exact hc (Option.some.inj heq ▸ hd)
  have hwhole : ∀ (text : List Char), text.head? ∈ "Hq?g".toList.map some → c :: cs ≠ text := by
    rintro text htext rfl
    obtain ⟨d, hd, heq⟩ := List.mem_map.mp htext
    exact hc (Option.some.inj heq ▸ hd)
  simp only [reportNames, List.forall_mem_cons] at h
  obtain ⟨h1, h2, h3, h4, h5, h6, h7, h8, h9, -⟩ := h
  unfold Rsp.action
  simp only [h1, h2, h3, h4, h5, h6, h7, h8, h9, Bool.false_eq_true, if_false]
  rw [if_neg fun h => hhead "Hg".toList (by decide) 1 h.1, if_neg (hwhole "Hc-".toList (by decide)),
    if_neg fun h => hhead "Hc-".toList (by decide) 2 h.1,
    if_neg (hhead "qC".toList (by decide) 1), if_neg (hwhole "?".toList (by decide)),
    if_neg (hwhole "g".toList (by decide))]
  rfl

theorem action_of_byFirstChar {pdata : List Char} {a : Rsp.Action}
    (ha : requestAction pdata = some a) (h : ByFirstChar pdata) :
    Rsp.action pdata = .ok (some a) := by
  have hreport : ∀ name ∈ reportNames, Text.contains name.toList pdata = false := by
    refine fun name hname => h name ?_
    unfold namesBefore
    split
    · exact hname
    · exact List.mem_append_left _ hname
    · exact List.mem_append_left _ hname
  rw [ByFirstChar, ha] at h
  cases pdata with
  | nil => cases ha
  | cons c cs =>
    unfold requestAction at ha
    split at ha
    case h_6 => cases ha
    all_goals
      rename_i hc
      obtain rfl := Option.some.inj hc
      rw [action_of_names (by decide) hreport]
      cases ha
    case h_1 => rfl
    case h_5 =>
      simp only [h "vFile" (by decide), h "qSymbol::" (by decide), Bool.false_eq_true, if_false]
      rfl
    all_goals
      simp only [h "vFile" (by decide), h "qSymbol::" (by decide), h "vCont?" (by decide),
        h "vCont" (by decide), h "vStep" (by decide), h "vKill" (by decide), Bool.false_eq_true,
        if_false]
      rfl

/-- Every name has a `q` or a `v` in it. -/
theorem not_contains_name {pdata : List Char} (hq : 'q' ∉ pdata) (hv : 'v' ∉ pdata)
    {a : Option Rsp.Action} {name : String} (hname : name ∈ namesBefore a) :
    Text.contains name.toList pdata = false := by
  have hletter : ∀ name ∈ reportNames ++ ["vFile", "qSymbol::", "vCont?", "vCont", "vStep", "vKill"],
      'q' ∈ name.toList ∨ 'v' ∈ name.toList := by decide
  have hmem : name ∈ reportNames ++ ["vFile", "qSymbol::", "vCont?", "vCont", "vStep", "vKill"] := by
    unfold namesBefore at hname
    split at hname
    · exact List.mem_append_left _ hname
    · have hpre : reportNames ++ ["vFile", "qSymbol::"] <+:
          reportNames ++ ["vFile", "qSymbol::", "vCont?", "vCont", "vStep", "vKill"] :=
        ⟨["vCont?", "vCont", "vStep", "vKill"], rfl⟩
      exact hpre.subset hname
    · exact hname
  rw [Bool.eq_false_iff]
  intro hcontains
  rcases hletter name hmem with h | h
  · exact hq (Text.mem_of_contains h hcontains)
  · exact hv (Text.mem_of_contains h hcontains)

/-- A handler that returns: `Dispatch` frames what it answered. -/
theorem dispatch_of_respond {pdata text : List Char} {a : Option Rsp.Action} {s s' : DebugSession}
    (hne : pdata ≠ []) (ha : Rsp.action pdata = .ok a) (h : (respond pdata a).run s = .ok text s') :
    (dispatch pdata).run s = .ok (Rsp.encode text) s' := by
  rw [dispatch, if_neg (by simpa using hne), EStateM.run_bind, ha, Effect.run_lift_ok]
  dsimp only
  rw [EStateM.run_bind, h]
  rfl

end DebugServer

end Dimebox
