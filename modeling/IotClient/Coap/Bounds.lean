import IotClient.Coap.Received

/-!
# How far a CoAP datagram is read

The walks here look up where the token, the extensions and the values of a datagram end, and
nothing else. A walk that skips two-byte extensions (`skip` is 2) finds out whether the datagram
is truncated; `coap_decode` walks without skipping those of a length, and copies one byte more
than there is of a payload. `staysInside_iff` says for which datagrams it reads nothing behind the
last byte and returns `NULL` for a truncated one.
-/

namespace IotClient.Coap

open Mem

/-! ### Walks -/

/-- Why a walk stops before the end of the options: something extends past the datagram, or the
option has reserved bits or a negative number. -/
inductive Stop where
  | past
  | reserved
  deriving DecidableEq, Repr

abbrev Walk (α : Type) := Except Stop α

theorem walk_bind {α β : Type} (a : α) (f : α → Walk β) : (Except.ok a >>= f) = f a := rfl

/-- What is read has to be there. -/
def inside {α : Type} : Run α → Walk α
  | .ok a => .ok a
  | .error _ => .error .past

/-- The number that four bits stand for with their extension at `j`, and the position behind it;
an extension of two bytes moves the position by `skip`. -/
def walkExtension (buf : List UInt8) (skip : Nat) (bits : UInt8) (j : Nat) : Walk (Nat × Nat) :=
  if bits = 13 then do
    let x ← inside (rd buf j)
    pure (x.toNat + 13, j + 1)
  else if bits = 14 then do
    let s ← inside (getShort buf j)
    pure (s.toNat + 269, j + skip)
  else if bits > 14 then .error .reserved
  else pure (bits.toNat, j)

/-- The number of the option whose first byte is `nextByte`, and the position behind its value. -/
def walkOption (buf : List UInt8) (skip : Nat) (nextByte : UInt8) (number : Int) (j : Nat) :
    Walk (Int × Nat) := do
  let (delta, j) ← walkExtension buf 2 (nextByte >>> 4 &&& 15) j
  let number := (number + delta).bmod (2 ^ 32)
  if number < 0 then .error .reserved
  else do
    let (length, j) ← walkExtension buf skip (nextByte &&& 15) j
    if length = 0 ∨ j + length ≤ buf.length then pure (number, j + length) else .error .past

/-- The position behind the options, where the payload marker is or the datagram ends. -/
def walkOptions (buf : List UInt8) (skip : Nat) : Nat → Nat → Int → Walk Nat
  | 0, _, _ => .error .past
  | rounds + 1, j, number =>
    if j < buf.length then do
      let nextByte ← inside (rd buf j)
      if nextByte = 0xff then pure j
      else do
        let (number, j) ← walkOption buf skip nextByte number (j + 1)
        walkOptions buf skip rounds j number
    else pure j

section Rounds

variable {buf : List UInt8} {skip : Nat}

theorem walkExtension_le {bits : UInt8} {j length next : Nat}
    (h : walkExtension buf skip bits j = .ok (length, next)) : j ≤ next := by
  unfold walkExtension at h
  split at h
  · cases hx : rd buf j with
    | error e => rw [hx] at h; cases h
    | ok x => rw [hx] at h; cases h; omega
  · split at h
    · cases hs : getShort buf j with
      | error e => rw [hs] at h; cases h
      | ok s => rw [hs] at h; cases h; omega
    · split at h
      · cases h
      · cases h; omega

theorem walkOption_le {nextByte : UInt8} {number number' : Int} {j next : Nat}
    (h : walkOption buf skip nextByte number j = .ok (number', next)) : j ≤ next := by
  unfold walkOption at h
  cases hdelta : walkExtension buf 2 (nextByte >>> 4 &&& 15) j with
  | error e => rw [hdelta] at h; cases h
  | ok p =>
    obtain ⟨delta, k⟩ := p
    have hk := walkExtension_le hdelta
    rw [hdelta] at h
    change (if _ then _ else _) = _ at h
    split at h
    · cases h
    · cases hlength : walkExtension buf skip (nextByte &&& 15) k with
      | error e => rw [hlength] at h; cases h
      | ok q =>
        obtain ⟨length, m⟩ := q
        have hm := walkExtension_le hlength
        rw [hlength] at h
        change (if _ then _ else _) = _ at h
        split at h
        · cases h; omega
        · cases h

/-- A round for every byte is enough. -/
theorem walkOptions_enough (rounds : Nat) : ∀ (j : Nat) (number : Int), buf.length - j < rounds →
    walkOptions buf skip (rounds + 1) j number = walkOptions buf skip rounds j number := by
  induction rounds with
  | zero => exact fun _ _ h => absurd h (Nat.not_lt_zero _)
  | succ rounds ih =>
    intro j number h
    rw [walkOptions, walkOptions]
    by_cases hj : j < buf.length
    · rw [if_pos hj, if_pos hj]
      congr 1
      funext nextByte
      split
      · rfl
      · cases hoption : walkOption buf skip nextByte number (j + 1) with
        | error e => rfl
        | ok p =>
          obtain ⟨number', next⟩ := p
          have hnext := walkOption_le hoption
          exact ih next number' (by omega)
    · rw [if_neg hj, if_neg hj]

end Rounds

/-! ### The decoder's walk -/

/-- A run of the decoder follows a walk: it reads past the datagram, gives `NULL`, or returns
something related to the end of the walk. -/
inductive Follows {α β : Type} (R : α → β → Prop) : Walk β → Run (Option α) → Prop where
  | past (e : Fault) : Follows R (.error .past) (.error e)
  | reserved : Follows R (.error .reserved) (.ok none)
  | ok {a : α} {b : β} : R a b → Follows R (.ok b) (.ok (some a))

section Follows

variable {buf : List UInt8} {bits nextByte : UInt8} {j : Nat} {number : Int}

theorem decodeDelta_follows :
    Follows Eq (walkExtension buf 2 bits j) (decodeDelta buf bits j) := by
  unfold walkExtension decodeDelta
  split
  · cases rd buf j with
    | error e => exact .past e
    | ok x => exact .ok rfl
  · split
    · cases getShort buf j with
      | error e => exact .past e
      | ok s => exact .ok rfl
    · split
      · exact .reserved
      · exact .ok rfl

theorem decodeLength_follows :
    Follows Eq (walkExtension buf 0 bits j) (decodeLength buf bits j) := by
  unfold walkExtension decodeLength
  split
  · cases rd buf j with
    | error e => exact .past e
    | ok x => exact .ok rfl
  · split
    · cases getShort buf j with
      | error e => exact .past e
      | ok s => exact .ok rfl
    · split
      · exact .reserved
      · exact .ok rfl

/-- A value that ends inside the datagram is copied, any other is read past it. -/
theorem decodeValue_inside {length : Nat} (number : Int) (h : length = 0 ∨ j + length ≤ buf.length) :
    ∃ co, decodeValue buf number length j = .ok (co, j + length) ∧ co.number = number := by
  unfold decodeValue
  split
  case isTrue hpos =>
    obtain ⟨value, hvalue⟩ : Returns (copyOut buf j length) :=
      copyOut_returns.2 ⟨by omega, fun _ => by omega⟩
    rw [hvalue]
    exact ⟨_, rfl, rfl⟩
  case isFalse hzero =>
    obtain rfl : length = 0 := by omega
    exact ⟨_, rfl, rfl⟩

theorem decodeValue_past {length : Nat} (number : Int) (h : ¬ (length = 0 ∨ j + length ≤ buf.length)) :
    ∃ e, decodeValue buf number length j = .error e := by
  refine ⟨.readOut, ?_⟩
  unfold decodeValue
  rw [if_pos (by omega), copyOut_past (by omega) (by omega)]
  rfl

theorem decodeOption_follows : Follows (fun (co, next) walked => walked = (co.number, next))
    (walkOption buf 0 nextByte number j) (decodeOption buf nextByte number j) := by
  have hdelta : Follows Eq (walkExtension buf 2 (nextByte >>> 4 &&& 15) j)
      (decodeDelta buf (nextByte >>> 4 &&& 15) j) := decodeDelta_follows
  unfold walkOption decodeOption
  generalize walkExtension buf 2 (nextByte >>> 4 &&& 15) j = w at hdelta ⊢
  generalize decodeDelta buf (nextByte >>> 4 &&& 15) j = r at hdelta ⊢
  cases hdelta with
  | past e => exact .past e
  | reserved => exact .reserved
  | @ok a b hab =>
    subst hab
    obtain ⟨delta, k⟩ := a
    have hlength : Follows Eq (walkExtension buf 0 (nextByte &&& 15) k)
        (decodeLength buf (nextByte &&& 15) k) := decodeLength_follows
    by_cases hneg : (number + delta).bmod (2 ^ 32) < 0
    · simp only [ok_bind, walk_bind, if_pos hneg]
      exact .reserved
    · simp only [ok_bind, walk_bind, if_neg hneg]
      generalize walkExtension buf 0 (nextByte &&& 15) k = w at hlength ⊢
      generalize decodeLength buf (nextByte &&& 15) k = r at hlength ⊢
      cases hlength with
      | past e => exact .past e
      | reserved => exact .reserved
      | @ok a b hab =>
        subst hab
        obtain ⟨length, m⟩ := a
        simp only [ok_bind, walk_bind]
        by_cases hvalue : length = 0 ∨ m + length ≤ buf.length
        · obtain ⟨co, hco, hnumber⟩ := decodeValue_inside ((number + delta).bmod (2 ^ 32)) hvalue
          rw [hco, if_pos hvalue]
          exact .ok (by rw [hnumber])
        · obtain ⟨e, he⟩ := decodeValue_past ((number + delta).bmod (2 ^ 32)) hvalue
          rw [he, if_neg hvalue]
          exact .past e

/-- The loop over the options walks without skipping the extensions of lengths. -/
theorem decodeOptions_follows (fuel : Nat) : ∀ (j : Nat) (number : Int)
    (options : List CoapOption), Follows (fun r walked => walked = r.2)
      (walkOptions buf 0 fuel j number) (decodeOptions buf buf.length fuel j j number options) := by
  induction fuel with
  | zero => exact fun _ _ _ => .past .fuel
  | succ fuel ih =>
    intro j number options
    rw [walkOptions, decodeOptions]
    by_cases hj : j < buf.length
    · obtain ⟨nextByte, hbyte⟩ := rd_returns.2 hj
      rw [if_pos hj, if_pos (by omega), hbyte, ok_bind]
      change Follows _ (if nextByte = 0xff then _ else _) _
      split
      · exact .ok rfl
      · have hoption : Follows (fun (co, next) walked => walked = (co.number, next))
            (walkOption buf 0 nextByte number (j + 1)) (decodeOption buf nextByte number (j + 1)) :=
          decodeOption_follows
        generalize walkOption buf 0 nextByte number (j + 1) = w at hoption ⊢
        generalize decodeOption buf nextByte number (j + 1) = r at hoption ⊢
        cases hoption with
        | past e => exact .past e
        | reserved => exact .reserved
        | @ok a b hab =>
          obtain ⟨co, next⟩ := a
          subst hab
          exact ih next co.number (options ++ [co])
    · rw [if_neg hj, if_neg (by omega)]
      exact .ok rfl

/-- Of a payload one byte too many is copied. -/
theorem decodePayload_returns {i : Nat} :
    Returns (decodePayload buf buf.length i) ↔ (i < buf.length → buf[i + 1]? = some 0) := by
  unfold decodePayload
  rcases Nat.lt_or_ge i buf.length with hi | hi
  · simp only [if_pos (show (buf.length : Int) - i > 0 by omega)]
    cases hbyte : buf[i + 1]? with
    | none =>
      have herror : rd buf (i + 1) = .error .readOut := by unfold rd; rw [hbyte]
      rw [herror]
      exact iff_of_false (not_returns_error _) fun h => by cases h hi
    | some x =>
      have hread : rd buf (i + 1) = .ok x := by unfold rd; rw [hbyte]
      rw [hread, ok_bind]
      by_cases hx : x = 0
      · rw [if_neg (not_not.2 hx)]
        exact iff_of_true (returns_ok _) fun _ => by rw [hx]
      · rw [if_pos hx, copyOut_past (by omega) (by omega)]
        exact iff_of_false (not_returns_error _) fun h => hx (Option.some.inj (h hi))
  · simp only [if_neg (show ¬ (buf.length : Int) - i > 0 by omega)]
    exact iff_of_true (returns_ok _) fun h => by omega

end Follows

/-! ### The datagram -/

/-- Version 1, and a token length that is not reserved. -/
def HeaderGood (buf : List UInt8) : Prop := buf.getD 0 0 >>> 6 = 1 ∧ tokenLength buf ≤ 8

/-- The walk over the options, from behind the token on. -/
def walkFrom (buf : List UInt8) (skip : Nat) : Walk Nat :=
  walkOptions buf skip (buf.length + 1) (4 + tokenLength buf) 0

/-- The token, an extension or a value extends past the end of the datagram. -/
def Truncated (buf : List UInt8) : Prop :=
  buf.length < 4 + tokenLength buf ∨ walkFrom buf 2 = .error .past

/-- `coap_decode` reads what was received only, and a truncated datagram is no message. -/
structure StaysInside (buf : List UInt8) : Prop where
  reads : Returns (coapDecode buf buf.length)
  rejects : Truncated buf → coapDecode buf buf.length = .ok none

/-- The walk came to reserved bits, or to the end of the options with the marker followed by a
zero or missing; and nothing is truncated by the right walk. -/
def EndsInside (buf : List UInt8) : Walk Nat → Prop
  | .error .past => False
  | .error .reserved => True
  | .ok i => (i < buf.length → buf[i + 1]? = some 0) ∧ ¬ Truncated buf

/-- The decoder rejects the header, or the token is there and its walk ends well. -/
def WalksInside (buf : List UInt8) : Prop :=
  HeaderGood buf → 4 + tokenLength buf ≤ buf.length ∧ EndsInside buf (walkFrom buf 0)

section Datagram

variable {buf : List UInt8}

theorem rd_first (h : 4 ≤ buf.length) : rd buf 0 = .ok (buf.getD 0 0) := by
  cases buf with
  | nil => cases h
  | cons x s => rfl

/-- `coap_decode` behind the first byte. -/
def decodeRest (buf : List UInt8) : Run (Option CoapMessage) := do
  let codeByte ← rd buf 1
  let code := (codeByte >>> 5).toNat * 100 + (codeByte &&& 0x1f).toNat
  let messageId ← getShort buf 2
  let token ← decodeToken buf (tokenLength buf) 4
  let i := 4 + tokenLength buf
  let some (options, i) ← decodeOptions buf buf.length (buf.length + 1) i i 0 [] | pure none
  let payload ← decodePayload buf buf.length i
  pure (some {
    version := (buf.getD 0 0 >>> 6).toNat
    type := (buf.getD 0 0 >>> 4 &&& 2).toNat
    code := code
    messageId := messageId
    token := token
    tokenLength := .is (tokenLength buf)
    options := if options = [] then .indet else .ref options
    optionsAmount := options.length
    payload := payload })

theorem coapDecode_eq (h : 4 ≤ buf.length) : coapDecode buf buf.length =
    if (buf.getD 0 0 >>> 6).toNat ≠ 1 then pure none
    else if tokenLength buf > 8 then pure none
    else decodeRest buf := by
  unfold coapDecode
  rw [rd_first h]
  rfl

theorem coapDecode_bad (h : 4 ≤ buf.length) (hbad : ¬ HeaderGood buf) :
    coapDecode buf buf.length = .ok none := by
  rw [coapDecode_eq h]
  split
  case isTrue => rfl
  case isFalse hversion =>
    rw [if_pos]
    · rfl
    · by_contra hlength
      exact hbad ⟨UInt8.toNat_inj.1 (not_not.1 hversion), by omega⟩

theorem coapDecode_good (h : 4 ≤ buf.length) (hgood : HeaderGood buf) :
    coapDecode buf buf.length = decodeRest buf := by
  have hversion : ¬ (buf.getD 0 0 >>> 6).toNat ≠ 1 := by
    rw [hgood.1]
    decide
  rw [coapDecode_eq h, if_neg hversion, if_neg (by have := hgood.2; omega)]

/-- Without all of its token a datagram is read past its end. -/
theorem decodeRest_token (h : 4 ≤ buf.length) (hshort : buf.length < 4 + tokenLength buf) :
    ¬ Returns (decodeRest buf) := by
  rintro ⟨r, hr⟩
  obtain ⟨codeByte, -, hr⟩ := bind_eq_ok.1 hr
  obtain ⟨messageId, -, hr⟩ := bind_eq_ok.1 hr
  obtain ⟨token, htoken, -⟩ := bind_eq_ok.1 hr
  have hlen := (decodeToken_ok htoken).1
  rw [List.length_take, List.length_drop] at hlen
  omega

/-- Behind the token the options decide. -/
theorem decodeRest_options (h : 4 + tokenLength buf ≤ buf.length) (h4 : 4 ≤ buf.length) :
    ∃ f : List CoapOption → Ptr CString → CoapMessage, decodeRest buf = (do
      let some (options, i) ← decodeOptions buf buf.length (buf.length + 1) (4 + tokenLength buf)
        (4 + tokenLength buf) 0 [] | pure none
      let payload ← decodePayload buf buf.length i
      pure (some (f options payload))) := by
  obtain ⟨codeByte, hcode⟩ : Returns (rd buf 1) := rd_returns.2 (by omega)
  obtain ⟨messageId, hid⟩ : Returns (getShort buf 2) := getShort_returns.2 (by omega)
  obtain ⟨token, htoken⟩ : Returns (decodeToken buf (tokenLength buf) 4) := by
    unfold decodeToken
    split
    · exact (returns_bind_ok fun _ => returns_ok _).2 (copyOut_returns.2 ⟨by omega, by omega⟩)
    · exact returns_ok _
  unfold decodeRest
  rw [hcode, ok_bind, hid, ok_bind, htoken, ok_bind]
  exact ⟨_, rfl⟩

/-- Behind the token the datagram is read as far as the walk says. -/
theorem staysInside_options {w : Walk Nat} {r : Run (Option (List CoapOption × Nat))}
    {f : List CoapOption → Ptr CString → CoapMessage}
    (hfollows : Follows (fun r walked => walked = r.2) w r)
    (hdecode : coapDecode buf buf.length = (do
      let some (options, i) ← r | pure none
      let payload ← decodePayload buf buf.length i
      pure (some (f options payload)))) : StaysInside buf ↔ EndsInside buf w := by
  cases hfollows with
  | past e =>
    refine iff_of_false (fun hstays => ?_) id
    have hreads := hstays.reads
    rw [hdecode] at hreads
    exact not_returns_error e hreads
  | reserved => exact iff_of_true ⟨⟨none, hdecode⟩, fun _ => hdecode⟩ trivial
  | @ok a b hab =>
    obtain ⟨options, i⟩ := a
    obtain rfl : b = i := hab
    change _ = (decodePayload buf buf.length b >>= fun payload => pure (some (f options payload)))
      at hdecode
    have hreturns : Returns (coapDecode buf buf.length) ↔
        (b < buf.length → buf[b + 1]? = some 0) := by
      rw [hdecode]
      exact (returns_bind_ok fun _ => returns_ok _).trans decodePayload_returns
    constructor
    · intro hstays
      refine ⟨hreturns.1 hstays.reads, fun htruncated => ?_⟩
      have hnone := hdecode.symm.trans (hstays.rejects htruncated)
      obtain ⟨payload, -, hsome⟩ := bind_eq_ok.1 hnone
      cases hsome
    · rintro ⟨hpayload, hwhole⟩
      exact ⟨hreturns.2 hpayload, fun htruncated => absurd htruncated hwhole⟩

/-- `coap_decode` stays inside the datagram, and takes no truncated one for a message, exactly
when its walk does. -/
theorem staysInside_iff (h : 4 ≤ buf.length) : StaysInside buf ↔ WalksInside buf := by
  by_cases hgood : HeaderGood buf
  · rcases Nat.lt_or_ge buf.length (4 + tokenLength buf) with hshort | htoken
    · refine iff_of_false (fun hstays => ?_) fun hwalks => ?_
      · have hreads := hstays.reads
        rw [coapDecode_good h hgood] at hreads
        exact decodeRest_token h hshort hreads
      · have hle := (hwalks hgood).1
        omega
    · obtain ⟨f, hrest⟩ := decodeRest_options htoken h
      have hends := staysInside_options (decodeOptions_follows _ _ _ _)
        ((coapDecode_good h hgood).trans hrest)
      exact hends.trans ⟨fun hwalk _ => ⟨htoken, hwalk⟩, fun hwalks => (hwalks hgood).2⟩
  · exact iff_of_true ⟨⟨none, coapDecode_bad h hgood⟩, fun _ => coapDecode_bad h hgood⟩
      fun hwalks => absurd hwalks hgood

end Datagram

/-- An acknowledgement without token, options and payload. -/
theorem staysInside_empty : StaysInside [0x60, 0, 0, 1] :=
  (staysInside_iff (by decide)).2 fun _ => ⟨by decide, by decide, by
    rintro (hshort | hpast)
    · exact absurd hshort (by decide)
    · exact absurd hpast (by decide)⟩

/-- A payload of one byte is read one byte too far. -/
theorem payload_not_staysInside :
    coapDecode [0x60, 0x45, 0, 1, 0xff, 0x31] 6 = .error .readOut ∧
      ¬ ∀ buf : List UInt8, 4 ≤ buf.length → StaysInside buf := by
  have herror : coapDecode [0x60, 0x45, 0, 1, 0xff, 0x31] 6 = .error .readOut := rfl
  refine ⟨herror, fun h => ?_⟩
  obtain ⟨m, hm⟩ := (h [0x60, 0x45, 0, 1, 0xff, 0x31] (by decide)).reads
  cases herror.symm.trans hm

end IotClient.Coap
