import IotClient.Mqtt.Readable
import IotClient.Ws.Parser

/-!
# What `ws_decode` needs of its input

A member that is missing, or of another type, is a 0 or a `NULL` for the codec, or a `NULL` it
dereferences. `Supplied` says that the members of a type are there. The lemmas say, type by
type, when the branch of `ws_decode` gives a message.
-/

namespace IotClient.Ws

open Mem Json Mqtt

/-! ### Members -/

def IsInt (v : Option Value) : Prop := ∃ n, v = some (.int n)

def IsStr (v : Option Value) : Prop := ∃ s, v = some (.str s)

def IsBool (v : Option Value) : Prop := ∃ b, v = some (.bool b)

/-- The object has the members of a packet, with values of their types. -/
def Supplied (j : Option Value) : MessageType → Prop
  | .connect =>
    IsInt (objectGet j "protocolLevel") ∧ IsStr (objectGet j "username") ∧
      IsStr (objectGet j "password") ∧ IsStr (objectGet j "clientID") ∧
      IsInt (objectGet j "keepalive") ∧ IsBool (objectGet j "cleanSession") ∧
      IsBool (objectGet j "willFlag") ∧ IsStr (objectGet (objectGet j "will") "content") ∧
      IsBool (objectGet (objectGet j "will") "retain") ∧
      IsStr (objectGet (objectGet j "topic") "name") ∧
      IsInt (objectGet (objectGet j "topic") "qos")
  | .connack => IsBool (objectGet j "sessionPresent") ∧ IsInt (objectGet j "returnCode")
  | .publish =>
    IsStr (objectGet j "content") ∧ IsBool (objectGet j "retain") ∧ IsBool (objectGet j "dup") ∧
      IsStr (objectGet (objectGet j "topic") "name") ∧
      IsInt (objectGet (objectGet j "topic") "qos") ∧ IsInt (objectGet j "packetID")
  | .puback | .pubrec | .pubrel | .pubcomp | .unsuback => IsInt (objectGet j "packetID")
  | .subscribe | .unsubscribe =>
    IsInt (objectGet j "packetID") ∧ ∃ xs, objectGet j "topics" = some (.arr xs)
  | .suback =>
    IsInt (objectGet j "packetID") ∧
      ∃ xs, objectGet j "returnCodes" = some (.arr xs) ∧ ∀ x ∈ xs, IsInt (some x)
  | .pingreq | .pingresp | .disconnect => True

variable {j v : Option Value} {message : Message}

theorem flag_returns : Returns (flag v) ↔ v ≠ none := by
  cases v with
  | none => exact iff_of_false (not_returns_error _) (fun h => h rfl)
  | some v =>
    refine iff_of_true ?_ (by simp)
    unfold flag
    split
    · contradiction
    · exact returns_ok _
    · exact returns_ok _

/-- The two values of a flag. -/
theorem flag_ok {b : Int} (h : flag v = .ok b) : b ≠ 0 ↔ v = some (.bool true) := by
  unfold flag at h
  split at h
  · cases h
  · cases h
    simp
  next hne =>
    cases h
    exact iff_of_false (fun h0 => h0 rfl) fun hv => hne (Option.some.inj hv)

/-! ### Contents in base64 -/

/-- Groups of four letters of the alphabet, padding among them. -/
def Base64Text (s : List UInt8) : Prop :=
  s ≠ [] ∧ s.length % 4 = 0 ∧ ∀ x ∈ s, x = 0x3d ∨ x ∈ encodingTable

theorem sextet_returns (x : UInt8) : Returns (sextet x) ↔ x = 0x3d ∨ x ∈ encodingTable := by
  by_cases hpad : x = 0x3d
  · subst hpad
    exact iff_of_true ⟨0, sextet_pad⟩ (.inl rfl)
  by_cases hmem : x ∈ encodingTable
  · obtain ⟨k, hk, rfl⟩ := exists_letter hmem
    exact iff_of_true ⟨k, (sextet_letter hk).2⟩ (.inr hmem)
  · refine iff_of_false ?_ (not_or.2 ⟨hpad, hmem⟩)
    unfold sextet
    rw [if_neg hpad, decodingTable_other hmem]
    exact not_returns_error _

theorem decodeLoop_returns {outputLength : Nat} (groups : Nat) : ∀ {decoded s : List UInt8},
    s.length = 4 * groups →
      (Returns (decodeLoop outputLength decoded s) ↔ ∀ x ∈ s, x = 0x3d ∨ x ∈ encodingTable) := by
  induction groups with
  | zero =>
    intro decoded s h
    rw [List.eq_nil_of_length_eq_zero h]
    exact iff_of_true (returns_ok _) (by simp)
  | succ groups ih =>
    intro decoded s h
    rcases s with _ | ⟨a, _ | ⟨b, _ | ⟨c, _ | ⟨d, data⟩⟩⟩⟩
    case cons.cons.cons.cons =>
      have hdata : data.length = 4 * groups := by
        simp only [List.length_cons] at h
        omega
      unfold decodeLoop
      refine (returns_bind fun _ _ => returns_bind fun _ _ => returns_bind fun _ _ =>
        returns_bind fun _ _ => ih hdata).trans ?_
      simp only [sextet_returns, List.forall_mem_cons]
    all_goals
      simp only [List.length_cons, List.length_nil] at h
      omega

/-- A decoded string is one of letters in groups of four. -/
theorem base64Decode_some {s : List UInt8} :
    (∃ out, base64Decode s = .ok (some out)) ↔ Base64Text s := by
  unfold base64Decode Base64Text
  by_cases hmod : s.length % 4 = 0
  · rw [if_neg (not_not.2 hmod)]
    rcases hrev : s.reverse with _ | ⟨last, _ | ⟨beforeLast, rest⟩⟩
    · refine iff_of_false ?_ fun h => h.1 (List.reverse_eq_nil_iff.1 hrev)
      rintro ⟨out, hout⟩
      cases hout
    · have hlen := congrArg List.length hrev
      rw [List.length_reverse] at hlen
      simp only [List.length_cons, List.length_nil] at hlen
      omega
    · have hne : s ≠ [] := by
        rintro rfl
        cases hrev
      have hloop (n : Nat) : Returns (decodeLoop n [] s) ↔
          ∀ x ∈ s, x = 0x3d ∨ x ∈ encodingTable :=
        decodeLoop_returns (s.length / 4) (by omega)
      constructor
      · rintro ⟨out, hout⟩
        obtain ⟨decoded, hdecoded, -⟩ := bind_eq_ok.1 hout
        exact ⟨hne, hmod, (hloop _).1 ⟨decoded, hdecoded⟩⟩
      · rintro ⟨-, -, hall⟩
        obtain ⟨decoded, hdecoded⟩ := (hloop _).2 hall
        dsimp only
        rw [hdecoded]
        exact ⟨decoded, rfl⟩
  · rw [if_pos hmod]
    refine iff_of_false ?_ fun h => hmod h.2.1
    rintro ⟨out, hout⟩
    cases hout

/-- A string that is base64. -/
def HasContent (v : Option Value) : Prop :=
  ∃ s, v = some (.str s) ∧ Base64Text (CString.ofBytes s).bytes

theorem stringValue_ref {s : CString} :
    stringValue v = .ref s ↔ ∃ bytes, v = some (.str bytes) ∧ CString.ofBytes bytes = s := by
  unfold stringValue
  split
  next bytes =>
    constructor
    · rintro ⟨⟩
      exact ⟨bytes, rfl, rfl⟩
    · rintro ⟨_, ⟨⟩, rfl⟩
      rfl
  next hne =>
    refine iff_of_false (fun h => by cases h) ?_
    rintro ⟨bytes, hv, -⟩
    exact hne bytes hv

theorem decodeContent_returns : Returns (decodeContent (stringValue v)) ↔ HasContent v := by
  constructor
  · rintro ⟨p, hp⟩
    obtain ⟨s, hs, hp⟩ := bind_eq_ok.1 hp
    obtain ⟨out, hout, hp⟩ := bind_eq_ok.1 hp
    cases out with
    | none => cases hp
    | some out =>
      obtain ⟨bytes, hv, rfl⟩ := stringValue_ref.1 (Ptr.deref_eq_ok.1 hs)
      exact ⟨bytes, hv, base64Decode_some.1 ⟨out, hout⟩⟩
  · rintro ⟨bytes, hv, hbase⟩
    obtain ⟨out, hout⟩ := base64Decode_some.2 hbase
    unfold decodeContent
    rw [stringValue_ref.2 ⟨bytes, hv, rfl⟩, Ptr.deref_ref, ok_bind, hout]
    exact ⟨_, rfl⟩

/-! ### The branches -/

/-- What `ws_decode` needs to make a message of a PUBLISH. -/
def PublishMembers (j : Option Value) : Prop :=
  HasContent (objectGet j "content") ∧ objectGet j "retain" ≠ none ∧ objectGet j "dup" ≠ none ∧
    enumValue (integerValue (objectGet (objectGet j "topic") "qos")) ≤ 2 ∧
    ¬ (objectGet j "dup" = some (.bool true) ∧
      enumValue (integerValue (objectGet (objectGet j "topic") "qos")) = 0)

theorem decodePublish_some :
    (∃ message, decodePublish j = .ok (some message)) ↔ PublishMembers j := by
  constructor
  · rintro ⟨message, h⟩
    obtain ⟨content, hcontent, h⟩ := bind_eq_ok.1 h
    obtain ⟨retain, hretain, h⟩ := bind_eq_ok.1 h
    obtain ⟨dup, hdup, h⟩ := bind_eq_ok.1 h
    dsimp only at h
    split at h
    · cases h
    next hqos =>
    split at h
    · cases h
    next hflags =>
    refine ⟨decodeContent_returns.1 ⟨content, hcontent⟩, flag_returns.1 ⟨retain, hretain⟩,
      flag_returns.1 ⟨dup, hdup⟩, Nat.not_lt.1 hqos, fun hboth => hflags ?_⟩
    exact ⟨(flag_ok hdup).2 hboth.1, hboth.2⟩
  · rintro ⟨hcontent, hretain, hdup, hqos, hflags⟩
    obtain ⟨content, hcontent⟩ := decodeContent_returns.2 hcontent
    obtain ⟨retain, hretain⟩ := flag_returns.2 hretain
    obtain ⟨dup, hdup⟩ := flag_returns.2 hdup
    have hflags' : ¬ (dup ≠ 0 ∧
        enumValue (integerValue (objectGet (objectGet j "topic") "qos")) = 0) := by
      rwa [flag_ok hdup]
    unfold decodePublish
    rw [hcontent, ok_bind, hretain, ok_bind, hdup, ok_bind]
    dsimp only
    rw [if_neg (Nat.not_lt.2 hqos), if_neg hflags']
    exact ⟨_, rfl⟩

/-- The integer is no return code of a SUBACK. -/
def BadInt (v : Value) : Prop :=
  intValue (integerValue (some v)) ≠ 128 ∧
    (intValue (integerValue (some v)) < 0 ∨ intValue (integerValue (some v)) > 2)

/-- The codes are kept when none is bad. -/
theorem decodeCodes_eq (xs : List Value) :
    (∃ x ∈ xs, BadInt x) ∧ decodeCodes xs = none ∨
      (∀ x ∈ xs, ¬ BadInt x) ∧
        ∃ codes, decodeCodes xs = some codes ∧ codes.length = xs.length := by
  induction xs with
  | nil => exact .inr ⟨by simp, [], rfl, rfl⟩
  | cons x xs ih =>
    unfold decodeCodes
    dsimp only
    by_cases hbad : BadInt x
    · rw [if_pos (show _ ∧ _ from hbad)]
      exact .inl ⟨⟨x, List.mem_cons_self, hbad⟩, rfl⟩
    rw [if_neg (show ¬ (_ ∧ _) from hbad)]
    rcases ih with ⟨⟨y, hy, hbadY⟩, hnone⟩ | ⟨hall, codes, hcodes, hlen⟩
    · rw [hnone]
      exact .inl ⟨⟨y, List.mem_cons_of_mem x hy, hbadY⟩, rfl⟩
    · rw [hcodes]
      exact .inr ⟨List.forall_mem_cons.2 ⟨hbad, hall⟩, _, rfl, congrArg (· + 1) hlen⟩

/-- What `ws_decode` needs to make a message of a SUBACK: codes, and no bad one. -/
def SubackMembers (j : Option Value) : Prop :=
  arrayElems (objectGet j "returnCodes") ≠ [] ∧
    ∀ x ∈ arrayElems (objectGet j "returnCodes"), ¬ BadInt x

theorem decodeSuback_some :
    (∃ message, decodeSuback j = .ok (some message)) ↔ SubackMembers j := by
  unfold decodeSuback SubackMembers
  rcases decodeCodes_eq (arrayElems (objectGet j "returnCodes")) with
    ⟨⟨x, hx, hbad⟩, hnone⟩ | ⟨hall, codes, hcodes, hlen⟩
  · rw [hnone]
    refine iff_of_false ?_ fun h => h.2 x hx hbad
    rintro ⟨message, h⟩
    cases h
  · rw [hcodes]
    cases codes with
    | nil =>
      refine iff_of_false ?_ fun h => h.1 (List.eq_nil_of_length_eq_zero hlen.symm)
      rintro ⟨message, h⟩
      cases h
    | cons code codes =>
      refine iff_of_true ⟨_, rfl⟩ ⟨fun hnil => ?_, hall⟩
      rw [hnil] at hlen
      cases hlen

/-- The message of a CONNACK. -/
theorem decodeConnack_some :
    (∃ message, decodeConnack j = .ok (some message)) ↔
      objectGet j "sessionPresent" ≠ none ∧
        UInt8.ofInt (integerValue (objectGet j "returnCode")) ≤ 5 := by
  constructor
  · rintro ⟨message, h⟩
    obtain ⟨sessionPresent, hsession, h⟩ := bind_eq_ok.1 h
    dsimp only at h
    split at h
    · cases h
    next hcode => exact ⟨flag_returns.1 ⟨sessionPresent, hsession⟩, UInt8.not_lt.1 hcode⟩
  · rintro ⟨hsession, hcode⟩
    obtain ⟨sessionPresent, hsession⟩ := flag_returns.2 hsession
    unfold decodeConnack
    rw [hsession, ok_bind]
    dsimp only
    rw [if_neg (UInt8.not_lt.2 hcode)]
    exact ⟨_, rfl⟩

theorem decodeConnack_ok (h : decodeConnack j = .ok (some message)) :
    ∃ ca, message = ⟨.is .connack, .ref (.connack ca)⟩ := by
  obtain ⟨sessionPresent, -, h⟩ := bind_eq_ok.1 h
  dsimp only at h
  split at h
  · cases h
  · cases h
    exact ⟨_, rfl⟩

theorem decodeConnect_messageType (h : decodeConnect j = .ok (some message)) :
    message.messageType = .is .connect := by
  obtain ⟨cleanSession, -, h⟩ := bind_eq_ok.1 h
  obtain ⟨willFlag, -, h⟩ := bind_eq_ok.1 h
  obtain ⟨content, -, h⟩ := bind_eq_ok.1 h
  obtain ⟨retain, -, h⟩ := bind_eq_ok.1 h
  cases h
  rfl

theorem decodeSubscribe_messageType (h : decodeSubscribe j = .ok (some message)) :
    message.messageType = .is .subscribe := by
  unfold decodeSubscribe at h
  split at h <;> cases h
  rfl

theorem decodeUnsubscribe_messageType (h : decodeUnsubscribe j = .ok (some message)) :
    message.messageType = .is .unsubscribe := by
  unfold decodeUnsubscribe at h
  split at h <;> cases h
  rfl

theorem decodePublish_messageType (h : decodePublish j = .ok (some message)) :
    message.messageType = .is .publish := by
  obtain ⟨content, -, h⟩ := bind_eq_ok.1 h
  obtain ⟨retain, -, h⟩ := bind_eq_ok.1 h
  obtain ⟨dup, -, h⟩ := bind_eq_ok.1 h
  dsimp only at h
  split at h
  · cases h
  · split at h <;> cases h
    rfl

theorem decodeSuback_messageType (h : decodeSuback j = .ok (some message)) :
    message.messageType = .is .suback := by
  unfold decodeSuback at h
  split at h <;> cases h
  rfl

/-! ### The types -/

/-- What the branch of a type needs, where the message is used or only made. The types that end
the connection have none. -/
def MembersFit (j : Option Value) : MessageType → Prop
  | .connack => Supplied j .connack ∧ UInt8.ofInt (integerValue (objectGet j "returnCode")) ≤ 5
  | .publish => PublishMembers j
  | .puback | .pubrec | .pubrel | .pubcomp | .unsuback => True
  | .suback => SubackMembers j
  | .pingresp => True
  | .connect | .subscribe | .unsubscribe | .pingreq | .disconnect => False

end IotClient.Ws
