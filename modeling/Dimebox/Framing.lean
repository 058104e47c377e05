import Dimebox.Rsp
import Dimebox.Lib.Escape
import Mathlib.Algebra.GroupWithZero.Nat
import Mathlib.Data.List.Basic

/-! Packets of the GDB remote serial protocol, made and taken apart.

    `Decode` undoes escapes, `Encode` makes none, so that a payload with a control character does not
    come back. The checksum of the protocol is over the characters that are transmitted; `Decode` has
    it over the characters it has undone, which is another sum as soon as there is an escape. It also
    lets a character be traded for an escape: the escape takes the character out of the sum, and what
    follows is read with the escapes shifted by one. -/

namespace Dimebox

namespace Rsp

open Escape (decoded bare pending)

/-! ### The sum of a text -/

/-- The sum of the characters. -/
def sum (s : List Char) : Nat := (s.map Char.toNat).sum

theorem checksum_eq (s : List Char) : checksum s = sum s % 256 := by
  have hfold : ∀ (s : List Char) (n : Nat),
      s.foldl (fun sum c => (sum + c.toNat) % 256) (n % 256) = (n + sum s) % 256 := by
    intro s
    induction s with
    | nil => exact fun n => rfl
    | cons c s ih =>
      intro n
      rw [List.foldl_cons, Nat.mod_add_mod, ih, sum, sum, List.map_cons, List.sum_cons,
        Nat.add_assoc]
  have hs := hfold s 0
  rw [Nat.zero_add] at hs
  exact hs

theorem checksum_lt (s : List Char) : checksum s < 256 := by
  rw [checksum_eq]
  exact Nat.mod_lt _ (by decide)

@[simp] theorem sum_nil : sum [] = 0 := rfl

@[simp] theorem sum_cons (c : Char) (s : List Char) : sum (c :: s) = c.toNat + sum s := rfl

@[simp] theorem sum_append (s t : List Char) : sum (s ++ t) = sum s + sum t := by
  simp [sum]

@[simp] theorem sum_replicate (k : Nat) (c : Char) : sum (List.replicate k c) = k * c.toNat := by
  simp [sum]

/-! ### What `Decode` makes of a payload -/

/-- The text behind escapes. -/
abbrev plain (p : Bool) (s : List Char) : List Char := decoded '\x7d' flip p s

/-- The characters that are not escaped. -/
abbrev unescaped (p : Bool) (s : List Char) : List Char := bare '\x7d' p s

theorem unescape_ok {p : Bool} {s : List Char} (h : '#' ∉ unescaped p s) (i : Nat) :
    unescape s i p = .ok (plain p s) := by
  induction s generalizing i p with
  | nil => cases p <;> rfl
  | cons c s ih =>
    cases p with
    | true =>
      rw [unescape, ih h]
      rfl
    | false =>
      by_cases hc : c = '\x7d'
      · simp only [unescaped, bare, hc, if_true] at h
        simp only [unescape, hc, if_true, ih h, plain, decoded]
      · simp only [unescaped, bare, hc, if_false, List.mem_cons, not_or] at h
        have hne : c ≠ '#' := Ne.symm h.1
        simp only [unescape, hc, hne, if_false, ih h.2, plain, decoded]
        rfl

theorem unescape_error {p : Bool} {s : List Char} (h : '#' ∈ unescaped p s) (i : Nat) :
    ∃ f, unescape s i p = .error f := by
  induction s generalizing i p with
  | nil => cases p <;> exact absurd h List.not_mem_nil
  | cons c s ih =>
    cases p with
    | true =>
      obtain ⟨f, hf⟩ := ih h (i + 1)
      exact ⟨f, by rw [unescape, hf]; rfl⟩
    | false =>
      by_cases hc : c = '\x7d'
      · simp only [unescaped, bare, hc, if_true] at h
        obtain ⟨f, hf⟩ := ih h (i + 1)
        exact ⟨f, by simp only [unescape, hc, if_true, hf]⟩
      · by_cases hhash : c = '#'
        · exact ⟨_, by rw [unescape, if_neg hc, if_pos hhash]⟩
        · simp only [unescaped, bare, hc, if_false, List.mem_cons] at h
          obtain ⟨f, hf⟩ := ih (h.resolve_left (Ne.symm hhash)) (i + 1)
          exact ⟨f, by simp only [unescape, hc, hhash, if_false, hf]; rfl⟩

/-! ### Packets -/

/-- An acknowledgement, or none. -/
def ack (b : Bool) : List Char := if b then ['+'] else []

/-- A message with a packet: what is between `$` and the last `#`, the two characters of the
    checksum, and whether there are acknowledgements at the ends. -/
structure Packet where
  front : Bool
  payload : List Char
  high : Char
  low : Char
  back : Bool
  /-- a `+` at the end is taken for an acknowledgement -/
  closed : back = true ∨ low ≠ '+'

namespace Packet

def body (p : Packet) : List Char := '$' :: (p.payload ++ ['#', p.high, p.low])

def text (p : Packet) : List Char := ack p.front ++ (p.body ++ ack p.back)

end Packet

section Packet

variable (p : Packet)

theorem length_body : p.body.length = p.payload.length + 4 := by
  simp [Packet.body]

theorem decode_text : decode p.text = decodeFramed p.body (p.body ++ ack p.back) := by
  obtain ⟨front, payload, high, low, back, hclosed⟩ := p
  have hstart : ∀ rest : List Char, (if (ack front ++ ('$' :: rest)).head? = some '+' then
      (ack front ++ ('$' :: rest)).drop 1 else ack front ++ ('$' :: rest)) = '$' :: rest := by
    intro rest
    cases front <;> rfl
  have hbody : Packet.body ⟨front, payload, high, low, back, hclosed⟩ =
      '$' :: (payload ++ ['#', high, low]) := rfl
  have hend : (if ('$' :: (payload ++ ['#', high, low]) ++ ack back).getLast? = some '+' then
      ('$' :: (payload ++ ['#', high, low]) ++ ack back).dropLast
      else '$' :: (payload ++ ['#', high, low]) ++ ack back)
        = '$' :: (payload ++ ['#', high, low]) := by
    cases back with
    | true => rw [ack, if_pos rfl, List.getLast?_concat, if_pos rfl, List.dropLast_concat]
    | false =>
      have hlow : low ≠ '+' := hclosed.resolve_left Bool.false_ne_true
      have hlast : '$' :: (payload ++ ['#', high, low]) = ('$' :: payload ++ ['#', high]) ++ [low] := by
        simp
      rw [ack, if_neg Bool.false_ne_true, List.append_nil, hlast, List.getLast?_concat,
        if_neg (fun h => hlow (Option.some.inj h))]
  rw [decode, if_neg (by simp [Packet.text, Packet.body])]
  simp only [Packet.text, hbody, List.cons_append] at hend ⊢
  rw [hstart]
  simp only [hend]
  rw [if_neg (by simp)]

theorem checkPrintable_ok_iff (s : List Char) (i : Nat) :
    checkPrintable s i = .ok () ↔ ∀ c ∈ s, Text.isPrint c = true := by
  induction s generalizing i with
  | nil => simp [checkPrintable]
  | cons c s ih =>
    rw [checkPrintable, List.forall_mem_cons]
    by_cases hc : Text.isPrint c = true
    · rw [if_pos hc, ih]
      exact (and_iff_right hc).symm
    · rw [if_neg hc]
      exact iff_of_false (fun h => by cases h) fun h => hc h.1

/-- What a packet has to be for `Decode` to return data. -/
structure Accepts (tail data : List Char) : Prop where
  printable : ∀ c ∈ p.body, Text.isPrint c = true
  control : '#' ∉ unescaped false p.payload
  undone : data = plain false p.payload
  sum : ∃ n cs, Text.scanHex 2 (p.high :: p.low :: tail) = some (n, cs) ∧ checksum data = n % 2 ^ 32

theorem decodeFramed_ok_iff (tail data : List Char) :
    decodeFramed p.body (p.body ++ tail) = .ok data ↔ Accepts p tail data := by
  have hlen := length_body p
  have hfirst : p.body.getD 0 '\x00' = '$' := rfl
  have hhash : p.body.getD (p.payload.length + 1) '\x00' = '#' := by
    simp [Packet.body]
  have hscan : (p.body ++ tail).drop (p.payload.length + 2) = p.high :: p.low :: tail := by
    have hfront : p.body ++ tail = ('$' :: p.payload ++ ['#']) ++ (p.high :: p.low :: tail) := by
      simp [Packet.body]
    rw [hfront, List.drop_left' (by simp)]
  have hpayload : (p.body.drop 1).take p.payload.length = p.payload := by
    simp [Packet.body]
  rw [decodeFramed]
  simp only [hlen, Nat.add_sub_cancel, hfirst, hpayload,
    show p.payload.length + 4 - 3 = p.payload.length + 1 by omega,
    show p.payload.length + 4 - 2 = p.payload.length + 2 by omega, hhash, hscan]
  rw [if_neg (by omega), if_neg (fun h => h rfl), if_neg (fun h => h rfl)]
  by_cases hprint : ∀ c ∈ p.body, Text.isPrint c = true
  · rw [(checkPrintable_ok_iff p.body 0).mpr hprint]
    cases hsum : Text.scanHex 2 (p.high :: p.low :: tail) with
    | none =>
      refine iff_of_false (fun h => by cases h) fun h => ?_
      obtain ⟨n, cs, hscanned, -⟩ := h.sum
      rw [hsum] at hscanned
      cases hscanned
    | some r =>
      by_cases hcontrol : '#' ∈ unescaped false p.payload
      · obtain ⟨f, hf⟩ := unescape_error hcontrol 1
        refine iff_of_false (fun h => ?_) fun h => h.control hcontrol
        simp only [hf, bind, Except.bind] at h
        cases h
      · simp only [unescape_ok hcontrol 1, bind, Except.bind]
        by_cases hcheck : checksum (plain false p.payload) = r.1 % 2 ^ 32
        · rw [if_neg (fun h => h hcheck)]
          constructor
          · intro h
            obtain rfl := Except.ok.inj h
            exact ⟨hprint, hcontrol, rfl, r.1, r.2, hsum, hcheck⟩
          · exact fun h => congrArg Except.ok h.undone.symm
        · rw [if_pos hcheck]
          refine iff_of_false (fun h => by cases h) fun h => hcheck ?_
          obtain ⟨n, cs, hscanned, hn⟩ := h.sum
          obtain rfl := h.undone
          rw [hsum] at hscanned
          obtain rfl := Option.some.inj hscanned
          exact hn
  · obtain ⟨f, hf⟩ : ∃ f, checkPrintable p.body 0 = .error f := by
      cases hcheck : checkPrintable p.body 0 with
      | error f => exact ⟨f, rfl⟩
      | ok _ => exact absurd ((checkPrintable_ok_iff p.body 0).mp hcheck) hprint
    refine iff_of_false (fun h => ?_) fun h => hprint h.printable
    rw [hf] at h
    cases h

theorem decode_ok_iff (data : List Char) :
    decode p.text = .ok data ↔ Accepts p (ack p.back) data := by
  rw [decode_text, decodeFramed_ok_iff]

/-- What `Decode` does not accept it throws at. -/
theorem decode_error_iff {message : List Char} :
    (∃ f, decode message = .error f) ↔ ¬ ∃ data, decode message = .ok data := by
  cases decode message with
  | error f => exact iff_of_true ⟨f, rfl⟩ fun ⟨_, h⟩ => by cases h
  | ok data => exact iff_of_false (fun ⟨_, h⟩ => by cases h) fun h => h ⟨data, rfl⟩

/-- The brackets of a packet that is accepted. -/
theorem brackets_of_decodeFramed {packet buffer data : List Char}
    (h : decodeFramed packet buffer = .ok data) :
    ∃ payload high low, packet = '$' :: (payload ++ ['#', high, low]) := by
  have hlen : ¬ packet.length < 4 := fun hlt => by
    rw [decodeFramed, if_pos hlt] at h
    cases h
  rw [decodeFramed, if_neg hlen] at h
  have hfirst : packet.getD 0 '\x00' = '$' := by
    by_contra hne
    rw [if_pos hne] at h
    cases h
  rw [if_neg (not_not.mpr hfirst)] at h
  have hhash : packet.getD (packet.length - 3) '\x00' = '#' := by
    by_contra hne
    rw [if_pos hne] at h
    cases h
  obtain ⟨c, high, low, hend⟩ : ∃ c high low, packet.drop (packet.length - 3) = [c, high, low] := by
    refine List.length_eq_three.mp ?_
    rw [List.length_drop]
    omega
  obtain ⟨d, payload, hstart⟩ : ∃ d payload, packet.take (packet.length - 3) = d :: payload := by
    refine List.exists_cons_of_length_pos ?_
    rw [List.length_take]
    omega
  have hpacket : packet = d :: (payload ++ [c, high, low]) := by
    rw [← List.cons_append, ← hstart, ← hend, List.take_append_drop]
  have hc : packet.getD (packet.length - 3) '\x00' = c := by
    rw [hpacket]
    simp
  have hd : packet.getD 0 '\x00' = d := by
    rw [hpacket]
    rfl
  exact ⟨payload, high, low, by rw [hpacket, ← hc, ← hd, hfirst, hhash]⟩

/-- A message that is accepted consists of acknowledgements or has a packet. -/
theorem exists_packet {message data : List Char} (h : decode message = .ok data) :
    (∀ c ∈ message, c = '+') ∨ ∃ p : Packet, p.text = message := by
  obtain ⟨front, buffer, hmessage, hbuffer⟩ : ∃ front buffer, message = ack front ++ buffer ∧
      (if message.head? = some '+' then message.drop 1 else message) = buffer := by
    by_cases hhead : message.head? = some '+'
    · refine ⟨true, _, ?_, if_pos hhead⟩
      rw [ack, if_pos rfl, List.drop_one]
      exact (List.cons_head?_tail hhead).symm
    · exact ⟨false, _, rfl, if_neg hhead⟩
  obtain ⟨back, packet, hsplit, hpacket, hclosed⟩ : ∃ back packet, buffer = packet ++ ack back ∧
      (if buffer.getLast? = some '+' then buffer.dropLast else buffer) = packet ∧
      (back = true ∨ packet.getLast? ≠ some '+') := by
    by_cases hlast : buffer.getLast? = some '+'
    · refine ⟨true, _, ?_, if_pos hlast, .inl rfl⟩
      exact (List.dropLast_append_getLast? '+' hlast).symm
    · exact ⟨false, _, (List.append_nil _).symm, if_neg hlast, .inr hlast⟩
  have hempty : message.length ≠ 0 := fun h0 => by
    rw [decode, if_pos h0] at h
    cases h
  rw [decode, if_neg hempty] at h
  simp only [hbuffer, hpacket] at h
  by_cases hnone : packet.length = 0
  · left
    rw [hmessage, hsplit, List.length_eq_zero_iff.mp hnone]
    cases front <;> cases back <;> simp [ack]
  · right
    rw [if_neg hnone] at h
    obtain ⟨payload, high, low, hbody⟩ := brackets_of_decodeFramed h
    have hlow : packet.getLast? = some low := by
      have hend : packet = ('$' :: payload ++ ['#', high]) ++ [low] := by simp [hbody]
      rw [hend, List.getLast?_concat]
    have hplus : back = true ∨ low ≠ '+' :=
      hclosed.imp_right fun hne heq => hne (by rw [hlow, heq])
    refine ⟨⟨front, payload, high, low, back, hplus⟩, ?_⟩
    rw [hmessage, hsplit, hbody]
    rfl

end Packet

/-! ### Checksums in digits -/

/-- A payload with the two digits of a sum. -/
def summed (front : Bool) (payload : List Char) (n : Nat) (back : Bool) : List Char :=
  ack front ++ ('$' :: (payload ++ '#' :: Text.hexPadded 2 n)) ++ ack back

theorem decode_summed_ok_iff {payload : List Char} {n : Nat} (hn : n < 256) (front back : Bool)
    (data : List Char) : decode (summed front payload n back) = .ok data ↔
      (∀ c ∈ payload, Text.isPrint c = true) ∧ '#' ∉ unescaped false payload ∧
        data = plain false payload ∧ checksum data = n := by
  have hdigit : ∀ d < 16, Text.hexDigit d ≠ '+' ∧ Text.isPrint (Text.hexDigit d) = true := by decide
  obtain ⟨p, hp⟩ : ∃ p : Packet, p = ⟨front, payload, Text.hexDigit (n / 16),
      Text.hexDigit (n % 16), back, .inr (hdigit _ (Nat.mod_lt _ (by decide))).1⟩ := ⟨_, rfl⟩
  have htext : summed front payload n back = p.text := by
    rw [hp, summed, Packet.text, Packet.body, Text.hexPadded_two hn, List.append_assoc]
  have hscan : Text.scanHex 2 (p.high :: p.low :: ack p.back) = some (n, ack p.back) := by
    have hbyte := Text.scanHex_byte hn (ack p.back)
    rw [Text.hexPadded_two hn] at hbyte
    rw [hp] at hbyte ⊢
    exact hbyte
  have hprint : (∀ c ∈ p.body, Text.isPrint c = true) ↔ ∀ c ∈ payload, Text.isPrint c = true := by
    have hhigh := (hdigit (n / 16) (by omega)).2
    have hlow := (hdigit (n % 16) (Nat.mod_lt _ (by decide))).2
    have hcontrol : Text.isPrint '$' = true ∧ Text.isPrint '#' = true := by decide
    rw [hp]
    simp only [Packet.body, List.forall_mem_cons, List.forall_mem_append, hhigh, hlow, hcontrol.1,
      hcontrol.2]
    simp
  have hpayload : p.payload = payload := by rw [hp]
  rw [htext, decode_ok_iff, ← hprint]
  constructor
  · rintro ⟨hprintable, hcontrol, hundone, m, cs, hsum, hcheck⟩
    rw [hscan] at hsum
    cases hsum
    rw [hpayload] at hcontrol hundone
    exact ⟨hprintable, hcontrol, hundone, by rw [hcheck, Nat.mod_eq_of_lt (by omega)]⟩
  · rintro ⟨hprintable, hcontrol, hundone, hcheck⟩
    exact ⟨hprintable, hpayload ▸ hcontrol, hpayload ▸ hundone, n, _, hscan,
      by rw [hcheck, Nat.mod_eq_of_lt (by omega)]⟩

/-- `Decode` gets back what `Encode` was given, with or without acknowledgements, exactly if there is
    no control character in it. -/
theorem encode_round_trip_iff (s : List Char) (hs : ∀ c ∈ s, Text.isPrint c = true)
    (front back : Bool) :
    decode (ack front ++ encode s ++ ack back) = .ok s ↔ '#' ∉ s ∧ '\x7d' ∉ s := by
  have htext : ack front ++ encode s ++ ack back = summed front s (checksum s) back := by
    simp [encode, summed]
  rw [htext, decode_summed_ok_iff (checksum_lt s)]
  constructor
  · rintro ⟨-, hhash, hplain, -⟩
    have hesc : '\x7d' ∉ s := by
      intro hmem
      have hlt : (plain false s).length < s.length := Escape.length_decoded_lt hmem
      rw [← hplain] at hlt
      exact Nat.lt_irrefl _ hlt
    rw [unescaped, Escape.bare_of_not_mem hesc] at hhash
    exact ⟨hhash, hesc⟩
  · rintro ⟨hhash, hesc⟩
    refine ⟨hs, ?_, (Escape.decoded_of_not_mem hesc).symm, rfl⟩
    rw [unescaped, Escape.bare_of_not_mem hesc]
    exact hhash

theorem encode_round_trip_question : (∀ c ∈ ['?'], Text.isPrint c = true) ∧
    decode (ack true ++ encode ['?'] ++ ack true) = .ok ['?'] := by
  have hs : ∀ c ∈ ['?'], Text.isPrint c = true := List.all_eq_true.mp (by decide)
  exact ⟨hs, (encode_round_trip_iff ['?'] hs true true).mpr (by decide)⟩

/-- An escape character is sent as it is, and taken for an escape. -/
theorem encoded_escape_is_lost : ∃ s : List Char, (∀ c ∈ s, Text.isPrint c = true) ∧
    decode (encode s) ≠ .ok s :=
  ⟨['\x7d'], List.all_eq_true.mp (by decide), by decide⟩

/-! ### Packets with escapes -/

/-- The characters the protocol has a sender escape. -/
def control (c : Char) : Bool := c = '#' || c = '$' || c = '\x7d' || c = '*'

/-- A payload as a sender puts it into a packet. -/
def standardEscape (d : List Char) : List Char := Escape.encoded '\x7d' flip control d

theorem of_control {c : Char} (h : control c = true) :
    c = '#' ∨ c = '$' ∨ c = '\x7d' ∨ c = '*' := by
  simpa [control, or_assoc] using h

theorem flip_flip {c : Char} (h : control c = true) : flip (flip c) = c := by
  rcases of_control h with rfl | rfl | rfl | rfl <;> decide

theorem plain_standardEscape (d : List Char) : plain false (standardEscape d) = d :=
  Escape.decoded_encoded rfl (fun _ => flip_flip) d

theorem hash_not_unescaped (d : List Char) : '#' ∉ unescaped false (standardEscape d) := by
  intro h
  have hcontrol : control '#' = false := Escape.not_special_of_mem_bare rfl h
  exact absurd hcontrol (by decide)

/-- What is escaped to a printable text has no control character but the escape. -/
theorem sum_standardEscape {d : List Char}
    (h : ∀ c ∈ standardEscape d, Text.isPrint c = true) :
    sum (standardEscape d) = sum d + 93 * d.count '\x7d' := by
  induction d with
  | nil => rfl
  | cons c d ih =>
    rw [standardEscape, Escape.encoded_cons] at h ⊢
    have hrest : sum (Escape.encoded '\x7d' flip control d) = sum d + 93 * d.count '\x7d' :=
      ih fun e he => h e (List.mem_append_right _ he)
    by_cases hc : control c = true
    · rw [if_pos hc] at h ⊢
      have hflip := h (flip c) (by simp)
      obtain rfl : c = '\x7d' := by
        rcases of_control hc with rfl | rfl | rfl | rfl
        · exact absurd hflip (by decide)
        · exact absurd hflip (by decide)
        · rfl
        · exact absurd hflip (by decide)
      have hesc : sum ['\x7d', flip '\x7d'] = '\x7d'.toNat + 93 := by decide
      rw [sum_append, hrest, hesc, sum_cons, List.count_cons_self]
      omega
    · have hne : c ≠ '\x7d' := fun heq => hc (by rw [heq]; rfl)
      rw [if_neg hc, sum_append, hrest, List.count_cons_of_ne hne]
      simp only [sum_cons, sum_nil]
      omega

/-- A packet a sender makes of a payload is read as that payload exactly if the escapes add up to
    nothing modulo 256. -/
theorem standard_packet_accepted_iff (d : List Char)
    (he : ∀ c ∈ standardEscape d, Text.isPrint c = true) :
    decode ('$' :: (standardEscape d ++ '#' :: Text.hexPadded 2 (checksum (standardEscape d)))) =
      .ok d ↔ 256 ∣ d.count '\x7d' := by
  have htext : '$' :: (standardEscape d ++ '#' :: Text.hexPadded 2 (checksum (standardEscape d))) =
      summed false (standardEscape d) (checksum (standardEscape d)) false := by
    simp [summed, ack]
  rw [htext, decode_summed_ok_iff (checksum_lt _), plain_standardEscape, checksum_eq, checksum_eq,
    sum_standardEscape he]
  constructor
  · rintro ⟨-, -, -, hsum⟩
    omega
  · intro hdvd
    refine ⟨he, hash_not_unescaped d, rfl, ?_⟩
    omega

theorem standard_packet_without_escape :
    (∀ c ∈ standardEscape "m10,4".toList, Text.isPrint c = true) ∧
    decode ('$' :: (standardEscape "m10,4".toList ++ '#' ::
      Text.hexPadded 2 (checksum (standardEscape "m10,4".toList)))) = .ok "m10,4".toList := by
  have he : ∀ c ∈ standardEscape "m10,4".toList, Text.isPrint c = true :=
    List.all_eq_true.mp (by decide)
  exact ⟨he, (standard_packet_accepted_iff _ he).mpr (by decide)⟩

/-- An escaped escape: `Decode` adds 0x7d where the sender has added 0x7d and 0x5d. -/
theorem escaped_escape_is_refused : ∃ d : List Char, (∀ c ∈ d, Text.isPrint c = true) ∧
    (∀ c ∈ standardEscape d, Text.isPrint c = true) ∧
    decode ('$' :: (standardEscape d ++ '#' :: Text.hexPadded 2 (checksum (standardEscape d)))) =
      .error (.runtimeError []) :=
  ⟨['\x7d'], List.all_eq_true.mp (by decide), List.all_eq_true.mp (by decide), by decide⟩

/-! ### Packets with one character changed -/

/-- The character whose place an escape can take in front of `v`, the sum of what is read staying
    the same: the escapes at the start of `v` pair off the other way, and the character behind them is
    flipped in one reading and not in the other. -/
def standIn (v : List Char) : Option Char :=
  let escapes := (v.takeWhile (· = '\x7d')).length
  match (v.dropWhile (· = '\x7d')).head? with
  | none => if escapes % 2 = 1 then some ']' else none
  | some y =>
    if '@' ≤ y ∧ y ≤ '_' then (if escapes % 2 = 1 then some '=' else some ' ') else none

/-- Of the two characters, neither of them escaped, one is an escape and the other has the place it
    can take. -/
def Traded (u : List Char) (x x' : Char) (v : List Char) : Prop :=
  pending '\x7d' false u = false ∧
    (x = '\x7d' ∧ standIn v = some x' ∨ x' = '\x7d' ∧ standIn v = some x)

theorem isPrint_bounds {c : Char} (hc : Text.isPrint c = true) : 32 ≤ c.toNat ∧ c.toNat ≤ 126 := by
  simpa [Text.isPrint] using hc

theorem toNat_flip {c : Char} (hc : Text.isPrint c = true) : (flip c).toNat =
    if '@' ≤ c ∧ c ≤ '_' then c.toNat + 32 else c.toNat - 32 := by
  have hall : ∀ n < 127, 32 ≤ n → (Char.ofNat (n ^^^ 0x20)).toNat =
      if 64 ≤ n ∧ n ≤ 95 then n + 32 else n - 32 := by decide
  obtain ⟨hlow, hhigh⟩ := isPrint_bounds hc
  exact hall c.toNat (by omega) hlow

/-- Two escapes in a row add 0x5d. -/
theorem sum_pairs (p : Bool) (k : Nat) (t : List Char) :
    sum (plain p (List.replicate (2 * k) '\x7d' ++ t)) = 93 * k + sum (plain p t) := by
  have hflip : (flip '\x7d').toNat = 93 := by decide
  rw [plain, Escape.decoded_pairs, sum_append, sum_replicate, hflip, Nat.mul_comm]

/-- One escape that is read itself in one reading and drops out in the other. -/
theorem sum_escape (t : List Char) :
    sum (plain true ('\x7d' :: t)) = 93 + sum (plain false t) ∧
      plain false ('\x7d' :: t) = plain true t := by
  have hflip : (flip '\x7d').toNat = 93 := by decide
  exact ⟨by rw [plain, decoded, sum_cons, hflip], by simp [plain, decoded]⟩

/-- A character that is flipped in one reading only. -/
theorem sum_head {y : Char} (hy : y ≠ '\x7d') (t : List Char) :
    sum (plain true (y :: t)) = (flip y).toNat + sum (plain false t) ∧
      sum (plain false (y :: t)) = y.toNat + sum (plain false t) := by
  refine ⟨by rw [plain, decoded, sum_cons], ?_⟩
  rw [plain, Escape.decoded_cons_of_ne hy, sum_cons]

/-- A character and a pending escape add the same exactly if it is the one the escape can stand in
    for. -/
theorem sum_eq_iff_standIn {v : List Char} (hv : ∀ c ∈ v, Text.isPrint c = true) {z : Char}
    (hz : Text.isPrint z = true) (hne : z ≠ '\x7d') :
    sum (plain true v) % 256 = (z.toNat + sum (plain false v)) % 256 ↔ standIn v = some z := by
  obtain ⟨hlow, hhigh⟩ := isPrint_bounds hz
  have hcode : ∀ c : Char, some c = some z ↔ c.toNat = z.toNat := fun c =>
    ⟨fun h => by rw [Option.some.inj h], fun h => by rw [Char.toNat_inj.mp h]⟩
  have hesc : z.toNat ≠ 125 := fun h => hne (Char.toNat_inj.mp h)
  have hsplit := Escape.run_append_rest '\x7d' v
  have hrange : ∀ c : Char, '@' ≤ c ∧ c ≤ '_' ↔ 64 ≤ c.toNat ∧ c.toNat ≤ 95 := fun _ => .rfl
  obtain ⟨n, hn⟩ : ∃ n, (v.takeWhile (· = '\x7d')).length = n := ⟨_, rfl⟩
  obtain ⟨rest, hrest⟩ : ∃ rest, v.dropWhile (· = '\x7d') = rest := ⟨_, rfl⟩
  have hhead : ∀ y ∈ rest.head?, y ≠ '\x7d' ∧ Text.isPrint y = true := by
    intro y hy
    refine ⟨Escape.head_rest_ne (t := v) (by rw [hrest]; exact hy), hv y ?_⟩
    exact (List.dropWhile_sublist _).subset (hrest ▸ List.mem_of_mem_head? hy)
  rw [hn, hrest] at hsplit
  rw [standIn, hn, hrest, ← hsplit]
  obtain ⟨k, rfl | rfl⟩ : ∃ k, n = 2 * k ∨ n = 2 * k + 1 := ⟨n / 2, by omega⟩
  · -- the escapes pair off the same way, and the flag is left pending
    have heven : ¬ 2 * k % 2 = 1 := by omega
    rw [sum_pairs, sum_pairs]
    cases rest with
    | nil =>
      simp only [List.head?_nil, if_neg heven, decoded, sum_nil, reduceCtorEq, iff_false]
      omega
    | cons y w =>
      obtain ⟨hy, hprint⟩ := hhead y rfl
      obtain ⟨htrue, hfalse⟩ := sum_head hy w
      have hbounds := isPrint_bounds hprint
      have hflip := toNat_flip hprint
      simp only [List.head?_cons, htrue, hfalse, if_neg heven]
      by_cases hb : '@' ≤ y ∧ y ≤ '_'
      · have hspace : ' '.toNat = 32 := rfl
        rw [if_pos hb] at hflip ⊢
        rw [hcode, hspace]
        omega
      · rw [if_neg hb] at hflip ⊢
        rw [hrange] at hb
        simp only [reduceCtorEq, iff_false]
        omega
  · -- one escape is left over: it is read itself, or escapes what follows
    have hodd : (2 * k + 1) % 2 = 1 := by omega
    obtain ⟨htrue, hfalse⟩ := sum_escape rest
    rw [List.replicate_succ', List.append_assoc, List.singleton_append, sum_pairs, sum_pairs, htrue,
      hfalse]
    cases rest with
    | nil =>
      have hclose : ']'.toNat = 93 := rfl
      simp only [List.head?_nil, if_pos hodd, decoded, sum_nil]
      rw [hcode, hclose]
      omega
    | cons y w =>
      obtain ⟨hy, hprint⟩ := hhead y rfl
      obtain ⟨htrue', hfalse'⟩ := sum_head hy w
      have hbounds := isPrint_bounds hprint
      have hflip := toNat_flip hprint
      simp only [List.head?_cons, htrue', hfalse', if_pos hodd]
      by_cases hb : '@' ≤ y ∧ y ≤ '_'
      · have hequal : '='.toNat = 61 := rfl
        rw [if_pos hb] at hflip ⊢
        rw [hcode, hequal]
        omega
      · rw [if_neg hb] at hflip ⊢
        rw [hrange] at hb
        simp only [reduceCtorEq, iff_false]
        omega

/-- Where an escape can stand in, both readings find the same control characters. -/
theorem unescaped_of_standIn {v : List Char} {z : Char} (h : standIn v = some z) :
    z ≠ '#' ∧ ('#' ∈ unescaped true v ↔ '#' ∈ unescaped false v) := by
  have hsplit := Escape.run_append_rest '\x7d' v
  obtain ⟨n, hn⟩ : ∃ n, (v.takeWhile (· = '\x7d')).length = n := ⟨_, rfl⟩
  obtain ⟨rest, hrest⟩ : ∃ rest, v.dropWhile (· = '\x7d') = rest := ⟨_, rfl⟩
  rw [hn, hrest] at hsplit
  rw [standIn, hn, hrest] at h
  have hbare : '#' ∈ unescaped true rest ↔ '#' ∈ unescaped false rest := by
    cases rest with
    | nil => exact .rfl
    | cons y w =>
      have hy : y ≠ '\x7d' := Escape.head_rest_ne (t := v) (by rw [hrest]; rfl)
      have hhash : '#' ≠ y := by
        rintro rfl
        cases h
      rw [unescaped, unescaped, Escape.bare_cons_of_ne hy, bare, List.mem_cons, or_iff_right hhash]
  refine ⟨?_, ?_⟩
  · rintro rfl
    cases rest with
    | nil =>
      simp only [List.head?_nil] at h
      split_ifs at h
      exact absurd (Option.some.inj h) (by decide)
    | cons y w =>
      simp only [List.head?_cons] at h
      split_ifs at h
      · exact absurd (Option.some.inj h) (by decide)
      · exact absurd (Option.some.inj h) (by decide)
  · rw [← hsplit]
    obtain ⟨k, rfl | rfl⟩ : ∃ k, n = 2 * k ∨ n = 2 * k + 1 := ⟨n / 2, by omega⟩
    · rw [unescaped, unescaped, Escape.bare_pairs, Escape.bare_pairs]
      exact hbare
    · have hescape : bare '\x7d' false ('\x7d' :: rest) = bare '\x7d' true rest := by simp [bare]
      rw [List.replicate_succ', List.append_assoc, List.singleton_append, unescaped, unescaped,
        Escape.bare_pairs, Escape.bare_pairs, hescape]
      exact hbare.symm

/-- A payload with `x` at one place, after an accepted one with another character there. -/
theorem accepts_changed_iff {p p' : Packet} {tail data : List Char} (h : Accepts p tail data)
    (hhigh : p'.high = p.high) (hlow : p'.low = p.low)
    (hprint : ∀ c ∈ p'.payload, Text.isPrint c = true) :
    (∃ data', Accepts p' tail data') ↔ '#' ∉ unescaped false p'.payload ∧
      sum (plain false p'.payload) % 256 = sum (plain false p.payload) % 256 := by
  obtain ⟨hprintable, -, rfl, n, cs, hscan, hcheck⟩ := h
  rw [checksum_eq] at hcheck
  constructor
  · rintro ⟨data', -, hcontrol, rfl, n', cs', hscan', hcheck'⟩
    rw [hhigh, hlow, hscan] at hscan'
    cases hscan'
    rw [checksum_eq] at hcheck'
    exact ⟨hcontrol, hcheck'.trans hcheck.symm⟩
  · rintro ⟨hcontrol, hsum⟩
    refine ⟨_, ?_, hcontrol, rfl, n, cs, by rw [hhigh, hlow, hscan], ?_⟩
    · intro c hc
      simp only [Packet.body, List.mem_cons, List.mem_append, List.not_mem_nil, or_false] at hc
      have hends : ∀ c, c = '$' ∨ c = '#' ∨ c = p.high ∨ c = p.low → Text.isPrint c = true := by
        intro c hc
        refine hprintable c ?_
        simp only [Packet.body, List.mem_cons, List.mem_append, List.not_mem_nil, or_false]
        tauto
      rw [hhigh, hlow] at hc
      rcases hc with hc | hc | hc
      · exact hends c (.inl hc)
      · exact hprint c hc
      · exact hends c (.inr hc)
    · rw [checksum_eq, hsum, hcheck]

/-- The reading from the changed character on, if the packet with the change is accepted. -/
theorem read_changed_iff {q : Bool} {v : List Char} {x x' : Char}
    (hv : ∀ c ∈ v, Text.isPrint c = true) (hx : Text.isPrint x = true)
    (hx' : Text.isPrint x' = true) (hne : x' ≠ x) (hcontrol : '#' ∉ unescaped q (x :: v)) :
    ('#' ∉ unescaped q (x' :: v) ∧
      sum (plain q (x' :: v)) % 256 = sum (plain q (x :: v)) % 256) ↔
    q = false ∧ (x = '\x7d' ∧ standIn v = some x' ∨ x' = '\x7d' ∧ standIn v = some x) := by
  have hbounds := isPrint_bounds hx
  have hbounds' := isPrint_bounds hx'
  have hcode : x'.toNat ≠ x.toNat := fun h => hne (Char.toNat_inj.mp h)
  cases q with
  | true =>
    -- both are flipped, and flipping is injective
    have hrange : ∀ c : Char, '@' ≤ c ∧ c ≤ '_' ↔ 64 ≤ c.toNat ∧ c.toNat ≤ 95 := fun _ => .rfl
    have hflip := toNat_flip hx
    have hflip' := toNat_flip hx'
    simp only [hrange] at hflip hflip'
    simp only [plain, decoded, sum_cons, Bool.true_eq_false, false_and, iff_false]
    rintro ⟨-, hsum⟩
    split_ifs at hflip hflip' <;> omega
  | false =>
    have hesc : plain false ('\x7d' :: v) = plain true v := (sum_escape v).2
    have hbare : unescaped false ('\x7d' :: v) = unescaped true v := by simp [unescaped, bare]
    by_cases hxe : x = '\x7d'
    · have hxe' : x' ≠ '\x7d' := hxe ▸ hne
      rw [hxe, hbare] at hcontrol
      rw [hxe, hesc, (sum_head hxe' v).2, unescaped, Escape.bare_cons_of_ne hxe', eq_comm,
        sum_eq_iff_standIn hv hx' hxe', List.mem_cons, not_or]
      constructor
      · rintro ⟨-, hstand⟩
        exact ⟨rfl, .inl ⟨rfl, hstand⟩⟩
      · rintro ⟨-, ⟨-, hstand⟩ | ⟨h, -⟩⟩
        · obtain ⟨hhash, hsame⟩ := unescaped_of_standIn hstand
          exact ⟨⟨Ne.symm hhash, fun h => hcontrol (hsame.mpr h)⟩, hstand⟩
        · exact absurd h hxe'
    · rw [unescaped, Escape.bare_cons_of_ne hxe, List.mem_cons, not_or] at hcontrol
      by_cases hxe' : x' = '\x7d'
      · rw [hxe', hesc, (sum_head hxe v).2, hbare, sum_eq_iff_standIn hv hx hxe]
        constructor
        · rintro ⟨-, hstand⟩
          exact ⟨rfl, .inr ⟨rfl, hstand⟩⟩
        · rintro ⟨-, ⟨h, -⟩ | ⟨-, hstand⟩⟩
          · exact absurd h hxe
          · exact ⟨fun h => hcontrol.2 ((unescaped_of_standIn hstand).2.mp h), hstand⟩
      · rw [(sum_head hxe v).2, (sum_head hxe' v).2]
        refine iff_of_false ?_ ?_
        · rintro ⟨-, hsum⟩
          omega
        · rintro ⟨-, ⟨h, -⟩ | ⟨h, -⟩⟩
          · exact hxe h
          · exact hxe' h

/-- A packet with one character of its payload changed is refused exactly if the change does not
    trade a character for an escape that can take its place, or the other way. -/
theorem corruption_detected_iff (p : Packet) (haccepted : ∃ data, decode p.text = .ok data)
    (u v : List Char) (x x' : Char) (hpayload : p.payload = u ++ x :: v)
    (hprint : Text.isPrint x' = true) (hne : x' ≠ x) :
    (∃ f, decode { p with payload := u ++ x' :: v }.text = .error f) ↔ ¬ Traded u x x' v := by
  obtain ⟨data, hdata⟩ := haccepted
  have haccepts := (decode_ok_iff p data).mp hdata
  have hpayloadPrint : ∀ c ∈ u ++ x :: v, Text.isPrint c = true := by
    intro c hc
    refine haccepts.printable c ?_
    rw [← hpayload] at hc
    simp [Packet.body, hc]
  have hu : ∀ c ∈ u, Text.isPrint c = true := fun c hc =>
    hpayloadPrint c (List.mem_append_left _ hc)
  have hv : ∀ c ∈ x :: v, Text.isPrint c = true := fun c hc =>
    hpayloadPrint c (List.mem_append_right _ hc)
  have hchanged : ∀ c ∈ u ++ x' :: v, Text.isPrint c = true := by
    intro c hc
    rcases List.mem_append.mp hc with hc | hc
    · exact hu c hc
    · rcases List.mem_cons.mp hc with rfl | hc
      · exact hprint
      · exact hv c (List.mem_cons_of_mem _ hc)
  have hcontrol := haccepts.control
  rw [hpayload, unescaped, Escape.bare_append, List.mem_append, not_or] at hcontrol
  have hread := read_changed_iff (fun c hc => hv c (List.mem_cons_of_mem _ hc))
    (hv x List.mem_cons_self) hprint hne hcontrol.2
  rw [decode_error_iff, Traded, ← hread, not_iff_not]
  simp only [decode_ok_iff]
  refine (@accepts_changed_iff p { p with payload := u ++ x' :: v } _ _ haccepts rfl rfl
    hchanged).trans ?_
  rw [hpayload]
  simp only [unescaped, plain, Escape.bare_append, Escape.decoded_append, List.mem_append, not_or,
    sum_append]
  constructor
  · rintro ⟨⟨-, hbare⟩, hsum⟩
    exact ⟨hbare, by omega⟩
  · rintro ⟨hbare, hsum⟩
    exact ⟨⟨hcontrol.1, hbare⟩, by omega⟩

/-- An `A` turned into a `B`. -/
theorem changed_letter_detected : ∃ p : Packet, p.text = "$A#41".toList ∧
    (∃ data, decode p.text = .ok data) ∧
    ∃ f, decode { p with payload := [] ++ 'B' :: [] }.text = .error f := by
  have hlow : '1' ≠ '+' := by decide
  let p : Packet := ⟨false, ['A'], '4', '1', false, .inr hlow⟩
  have haccepted : ∃ data, decode "$A#41".toList = .ok data := ⟨['A'], by decide⟩
  have hkept : ¬ Traded [] 'A' 'B' [] := by
    rintro ⟨-, ⟨hescape, -⟩ | ⟨hescape, -⟩⟩
    · exact absurd hescape (by decide)
    · exact absurd hescape (by decide)
  exact ⟨p, rfl, haccepted,
    (corruption_detected_iff p haccepted [] [] 'A' 'B' rfl (by decide) (by decide)).mpr hkept⟩

/-- A blank turned into an escape: it is missing from the sum, and the letter behind it is a lower
    case one. -/
theorem blank_turned_into_escape : decode "$ A#61".toList = .ok " A".toList ∧
    decode "$\x7dA#61".toList = .ok "a".toList := by
  decide

end Rsp

end Dimebox
