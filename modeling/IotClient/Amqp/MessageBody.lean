import IotClient.Amqp.Client
import IotClient.Amqp.FrameLength

/-!
# The sections of a received transfer

`amqpDecode_transfer`: whatever the frame, `section_number` of a decoded transfer is not assigned
or 0, and there is at most one section. So no transfer comes back with the number of its sections
(`bodyFrame_not_roundTrips`).
-/

namespace IotClient.Amqp

open Mem

/-! ### The packet of a code -/

/-- The code under which a packet is sent. -/
def Packet.code : Packet → HeaderCode
  | .open _ => .open
  | .begin _ => .begin
  | .attach _ => .attach
  | flow => .flow
  | transfer _ => .transfer
  | disposition _ => .disposition
  | detach _ => .detach
  | amqpEnd => .amqpEnd
  | close => .close
  | mechanisms _ => .mechanisms
  | init _ => .init
  | challenge _ => .challenge
  | response => .response
  | outcome _ => .outcome
  | proto _ => .proto

/-- What is read is no packet or one of the code. -/
def GivesPacket (code : HeaderCode) (read : Run (Option Packet)) : Prop :=
  ∀ p, read = .ok (some p) → p.code = code

namespace GivesPacket

variable {code : HeaderCode}

theorem nothing : GivesPacket code (pure none) := by
  intro p hp
  cases hp

theorem packet {p : Packet} (h : p.code = code) : GivesPacket code (pure (some p)) := by
  intro q hq
  cases hq
  exact h

theorem bind {α : Type} {x : Run α} {f : α → Run (Option Packet)}
    (h : ∀ a, GivesPacket code (f a)) : GivesPacket code (x >>= f) := by
  intro p hp
  obtain ⟨a, -, hp⟩ := bind_eq_ok.1 hp
  exact h a p hp

theorem ite {c : Prop} [Decidable c] {x y : Run (Option Packet)} (hx : GivesPacket code x)
    (hy : GivesPacket code y) : GivesPacket code (if c then x else y) := by
  split
  · exact hx
  · exact hy

end GivesPacket

section Read

variable (list : TlvAmqp)

theorem readChallenge_gives : GivesPacket .challenge (readChallenge list) := by
  unfold readChallenge
  exact .bind fun _ => .ite .nothing (.bind fun _ => .packet rfl)

theorem readInit_gives : GivesPacket .init (readInit list) := by
  unfold readInit
  exact .bind fun _ => .ite .nothing
    (.bind fun _ => .bind fun _ => .bind fun _ => .packet rfl)

theorem readMechanisms_gives : GivesPacket .mechanisms (readMechanisms list) := by
  unfold readMechanisms
  exact .bind fun _ => .packet rfl

theorem readOutcome_gives : GivesPacket .outcome (readOutcome list) := by
  unfold readOutcome
  refine .bind fun _ => .ite .nothing ?_
  refine .bind fun _ => .bind fun _ => ?_
  exact .ite (.bind fun _ => .packet rfl) (.bind fun _ => .packet rfl)

theorem readOpen_gives : GivesPacket .open (readOpen list) := by
  unfold readOpen
  refine .bind fun _ => .ite .nothing ?_
  repeat refine .bind fun _ => ?_
  exact .packet rfl

theorem readBegin_gives : GivesPacket .begin (readBegin list) := by
  unfold readBegin
  repeat refine .bind fun _ => ?_
  exact .packet rfl

theorem readAttach_gives : GivesPacket .attach (readAttach list) := by
  unfold readAttach
  refine .bind fun _ => .ite .nothing ?_
  repeat refine .bind fun _ => ?_
  split
  · exact .nothing
  refine .bind fun _ => ?_
  split
  · exact .nothing
  refine .bind fun _ => .bind fun _ => .bind fun _ => ?_
  split
  · exact .nothing
  repeat refine .bind fun _ => ?_
  exact .packet rfl

theorem readTransfer_gives : GivesPacket .transfer (readTransfer list) := by
  unfold readTransfer
  repeat refine .bind fun _ => ?_
  -- `settled` is read, `NULL` or left alone
  refine .ite (.bind fun _ => .bind fun _ => .ite ?_ ?_) ?_
  all_goals
    repeat refine .bind fun _ => ?_
    exact .packet rfl

theorem readDisposition_gives : GivesPacket .disposition (readDisposition list) := by
  unfold readDisposition
  refine .bind fun _ => .ite .nothing ?_
  repeat refine .bind fun _ => ?_
  split
  · exact .nothing
  exact .bind fun _ => .packet rfl

theorem readDetach_gives : GivesPacket .detach (readDetach list) := by
  unfold readDetach
  refine .bind fun _ => .ite .nothing (.bind fun _ => .ite .nothing ?_)
  refine .bind fun _ => .bind fun _ => .bind fun _ => ?_
  split
  · exact .nothing
  · exact .packet rfl

end Read

/-- `init_header` assigns a packet of the header's code. -/
theorem initPacket_code {code : UInt8} {list : TlvAmqp} {p : Packet}
    (h : initPacket code list = .ok (some p)) : HeaderCode.ofByte code = some p.code := by
  unfold initPacket at h
  split at h
  next hcode => rw [hcode, readChallenge_gives list p h]
  next hcode => rw [hcode, readInit_gives list p h]
  next hcode => rw [hcode, readMechanisms_gives list p h]
  next hcode => rw [hcode, readOutcome_gives list p h]
  next hcode => cases h; exact hcode
  next hcode => rw [hcode, readOpen_gives list p h]
  next hcode => rw [hcode, readBegin_gives list p h]
  next hcode => rw [hcode, readAttach_gives list p h]
  next hcode => cases h; exact hcode
  next hcode => rw [hcode, readTransfer_gives list p h]
  next hcode => rw [hcode, readDisposition_gives list p h]
  next hcode => rw [hcode, readDetach_gives list p h]
  next hcode => cases h; exact hcode
  next hcode => cases h; exact hcode
  all_goals cases h

/-! ### The loop over the sections -/

/-- What the loop leaves: at most one section, the index of the last one as the number. -/
def OneSection (number : Cell Int) (sections : List SectionEntry) : Prop :=
  number = .indet ∧ sections = [] ∨ ∃ entry, number = .is 0 ∧ sections = [entry]

/-- The loop stores one section, and has no room for a second. -/
theorem readSections_one {data : List UInt8} {stop : Int} {fuel i : Nat} {number n : Cell Int}
    {sections s : List SectionEntry} (hone : OneSection number sections)
    (h : readSections data stop fuel i number sections = .ok (n, s)) : OneSection n s := by
  induction fuel generalizing i number sections with
  | zero =>
    unfold readSections at h
    split at h
    · cases h
    · cases h
      exact hone
  | succ fuel ih =>
    unfold readSections at h
    split at h
    case isTrue =>
      obtain ⟨⟨p, j⟩, -, h⟩ := bind_eq_ok.1 h
      obtain ⟨entry, -, h⟩ := bind_eq_ok.1 h
      rcases hone with ⟨-, rfl⟩ | ⟨first, -, rfl⟩
      · exact ih (.inr ⟨entry, rfl, rfl⟩) h
      · cases h
    case isFalse =>
      cases h
      exact hone

/-! ### Decoded transfers -/

section Decoded

variable {data : List UInt8} {readableBytes channel : Int} {doff type : UInt8}
  {back : AmqpHeader} {t : AmqpTransfer}

theorem initHeader_code {code : UInt8} {list : TlvAmqp} {p : Packet}
    (h : initHeader (getHeaderEmpty code) list = .ok back) (hpacket : back.packet = .ref p) :
    back.code = .is p.code.toByte := by
  obtain ⟨r, hr, hback⟩ : ∃ r, initPacket code list = .ok r ∧ _ := bind_eq_ok.1 h
  cases r with
  | none =>
    cases hback
    cases hpacket
  | some q =>
    cases hback
    cases hpacket
    exact congrArg Cell.is (HeaderCode.toByte_of_ofByte (initPacket_code hr)).symm

/-- A header that holds a transfer has its code. -/
theorem getAmqp_code {i j : Nat} {p : Packet} (h : getAmqp data i = .ok (back, j))
    (hpacket : back.packet = .ref p) : back.code = .is p.code.toByte := by
  obtain ⟨⟨list, k⟩, -, h⟩ := bind_eq_ok.1 h
  obtain ⟨constructor, -, h⟩ := bind_eq_ok.1 h
  obtain ⟨code, -, h⟩ := bind_eq_ok.1 h
  obtain ⟨header, hheader, h⟩ := bind_eq_ok.1 h
  cases h
  exact initHeader_code hheader hpacket

/-- Of a transfer the sections are read. -/
theorem decodeFrame_transfer
    (h : decodeFrame data readableBytes doff type channel = .ok back)
    (hpacket : back.packet = .ref (.transfer t)) :
    ∃ number sections, t.sectionNumber = .ref number ∧ t.sections = .ref sections ∧
      OneSection number sections := by
  obtain ⟨⟨header, i⟩, hheader, h⟩ := bind_eq_ok.1 h
  obtain ⟨code, hcode, h⟩ := bind_eq_ok.1 h
  split at h
  case isTrue =>
    obtain ⟨transfer, -, h⟩ := bind_eq_ok.1 h
    obtain ⟨⟨number, sections⟩, hread, h⟩ := bind_eq_ok.1 h
    cases h
    cases hpacket
    exact ⟨number, sections, rfl, rfl, readSections_one (.inl ⟨rfl, rfl⟩) hread⟩
  case isFalse hne =>
    cases h
    have htransfer : header.code = .is HeaderCode.transfer.toByte := getAmqp_code hheader hpacket
    exact (hne (Except.ok.inj (hcode.symm.trans (congrArg Cell.get htransfer)))).elim

/-- Of a decoded transfer at most one section is stored, and its index is the number. -/
theorem amqpDecode_transfer (h : amqpDecode data readableBytes = .ok (.ref back))
    (hpacket : back.packet = .ref (.transfer t)) :
    ∃ number sections, t.sectionNumber = .ref number ∧ t.sections = .ref sections ∧
      OneSection number sections := by
  obtain ⟨length, -, h⟩ := bind_eq_ok.1 h
  obtain ⟨doff, -, h⟩ := bind_eq_ok.1 h
  obtain ⟨type, -, h⟩ := bind_eq_ok.1 h
  obtain ⟨channel, -, h⟩ := bind_eq_ok.1 h
  dsimp only at h
  split at h
  case isTrue =>
    -- the header of a ping is as `malloc` left it
    split at h
    · cases h
      cases hpacket
    · cases h
  case isFalse =>
    split at h
    case isTrue =>
      split at h
      · cases h
        cases hpacket
      · cases h
    case isFalse =>
      split at h
      · cases h
      split at h
      · obtain ⟨header, hheader, hback⟩ := map_ref_ok h
        subst hback
        exact decodeFrame_transfer hheader hpacket
      · cases h

end Decoded

/-- The decoded transfer has the bodies as its sections, in order. -/
def YieldsBodies (data : List UInt8) (bodies : List (List UInt8)) : Prop :=
  ∃ back t, amqpDecode data data.length = .ok (.ref back) ∧ back.packet = .ref (.transfer t) ∧
    t.sectionNumber = .ref (.is bodies.length) ∧ t.sections = .ref (bodies.map dataEntry)

/-- No body comes back: the number would be 1 at least. -/
theorem not_yieldsBodies (data : List UInt8) {bodies : List (List UInt8)} (h : bodies ≠ []) :
    ¬ YieldsBodies data bodies := by
  rintro ⟨back, t, hback, hpacket, hnumber, -⟩
  obtain ⟨number, sections, hnumber', -, hone⟩ := amqpDecode_transfer hback hpacket
  have hpos : 0 < bodies.length := List.length_pos_of_ne_nil h
  obtain rfl : number = .is bodies.length := Ptr.ref.inj (hnumber'.symm.trans hnumber)
  rcases hone with ⟨hindet, -⟩ | ⟨entry, hzero, -⟩
  · cases hindet
  · have hlength := Cell.is.inj hzero
    omega

/-! ### Sections of a frame -/

/-- A `DATA` section of a frame, its length in a field of either width. -/
structure Section where
  width : Width
  body : List UInt8
  fits : width.Fits body.length

namespace Section

/-- The section as a value: binary data with the descriptor of `DATA`. -/
def val (s : Section) : Val :=
  .described (.fixed .smallUlong [SectionCode.data.toByte]) (.sized s.width .binary s.body)

/-- What is read of it; a binary of 32-bit length has none in its node. -/
def entry (s : Section) : SectionEntry :=
  ⟨SectionCode.data.toByte, .ref ⟨.ref s.body, (sizedTlv s.width .binary s.body).length⟩⟩

theorem val_ok (s : Section) : s.val.Ok := .described (.fixed rfl) (.sized s.fits) trivial

end Section

section Sections

variable {data : List UInt8}

theorem getSection_drop {i : Nat} {rest : List UInt8} (s : Section)
    (h : data.drop i = s.val.enc ++ rest) :
    getSection data i = .ok (.ref s.entry, i + s.val.enc.length) := by
  have hread : getTlv data i = .ok (s.val.node, i + s.val.enc.length) := by
    refine s.val_ok.readable.1 _ _ _ rest ?_ h
    have hlength := congrArg List.length h
    rw [List.length_drop, List.length_append] at hlength
    omega
  unfold getSection
  rw [hread, ok_bind]
  obtain ⟨w, body, hfits⟩ := s
  cases w <;> rfl

/-- What the loop makes of the sections of a frame: it fails when there are two. -/
def readResult : List Section → Run (Cell Int × List SectionEntry)
  | [] => .ok (.indet, [])
  | [s] => .ok (.is 0, [s.entry])
  | _ :: _ :: _ => .error .writeOut

theorem readSections_end {stop : Int} {i fuel : Nat} (h : stop ≤ i) (number : Cell Int)
    (sections : List SectionEntry) :
    readSections data stop fuel i number sections = .ok (number, sections) := by
  cases fuel <;> rw [readSections, if_neg (by omega)] <;> rfl

/-- One round of the loop. -/
theorem readSections_step {i fuel : Nat} {rest : List UInt8} (s : Section)
    (h : data.drop i = s.val.enc ++ rest) (number : Cell Int) (stored : List SectionEntry) :
    readSections data data.length (fuel + 1) i number stored =
      if stored.length < 1 then
        readSections data data.length fuel (i + s.val.enc.length) (.is stored.length)
          (stored ++ [s.entry])
      else .error .writeOut := by
  have hpos := s.val.enc_pos
  have hlength := congrArg List.length h
  rw [List.length_drop, List.length_append] at hlength
  rw [readSections, if_pos (by omega), getSection_drop s h]
  rfl

theorem readSections_sections (sections : List Section) {i fuel : Nat}
    (h : data.drop i = (sections.map fun s => s.val.enc).flatten) (hi : i ≤ data.length)
    (hfuel : sections.length ≤ fuel) :
    readSections data data.length fuel i .indet [] = readResult sections := by
  have hstop := length_of_drop h hi
  match sections, fuel with
  | [], fuel => exact readSections_end (by rw [hstop]; exact Int.le_refl _) _ _
  | [s], fuel + 1 =>
    rw [readSections_step s h, if_pos (by decide)]
    refine readSections_end ?_ _ _
    rw [hstop, List.map_singleton, List.flatten_singleton]
  | s :: s' :: rest, fuel + 2 =>
    have hnext : data.drop (i + s.val.enc.length) =
        s'.val.enc ++ (rest.map fun s => s.val.enc).flatten := drop_add h
    rw [readSections_step s h, if_pos (by decide), readSections_step s' hnext]
    exact if_neg (Nat.lt_irrefl 1)

end Sections

/-! ### Frames with a body -/

/-- A frame of a transfer with a body. -/
inductive BodyFrame where
  /-- what `send_amqp_transfer` encodes -/
  | sent (channel : Int) (content : CString) (qos deliveryId handle : Int)
    (hcontent : content.strlen < 2 ^ 16) (hid : 1 ≤ deliveryId ∧ deliveryId ≤ 255)
    (hhandle : 1 ≤ handle ∧ handle ≤ 255)
  /-- any arguments and sections -/
  | received (doff type channel : Int) (w : Width) (arguments : List Val) (sections : List Section)
    (hok : (Val.list w arguments).Ok) (hsections : sections ≠ [])

namespace BodyFrame

def bodies : BodyFrame → List (List UInt8)
  | sent _ content .. => [content.bytes]
  | received _ _ _ _ _ sections .. => sections.map Section.body

/-- The bytes of the frame are built. -/
def Built : BodyFrame → List UInt8 → Prop
  | sent channel content qos deliveryId handle .., data =>
    amqpEncode (transferHeader (.is channel) content qos deliveryId handle) =
      .ok (data.map some, (data.length : Int))
  | received doff type channel w arguments sections .., data =>
    data = frame doff type channel
      ((Val.described (.fixed .smallUlong [HeaderCode.transfer.toByte]) (.list w arguments)).enc ++
        (sections.map fun s => s.val.enc).flatten)

/-- The frame is decoded to the bodies. -/
def RoundTrips (x : BodyFrame) : Prop := ∃ data, x.Built data ∧ YieldsBodies data x.bodies

theorem bodies_ne_nil (x : BodyFrame) : x.bodies ≠ [] := by
  cases x with
  | sent => exact List.cons_ne_nil _ _
  | received _ _ _ _ _ sections _ hsections => exact List.map_eq_nil_iff.not.2 hsections

end BodyFrame

/-- No frame is decoded to its bodies. -/
theorem bodyFrame_not_roundTrips (x : BodyFrame) : ¬ x.RoundTrips := by
  rintro ⟨data, -, hyields⟩
  exact not_yieldsBodies data x.bodies_ne_nil hyields

theorem letter_nulFree : (0 : UInt8) ∉ ([0x61] : List UInt8) := by decide

/-- The letter `a`, sent as delivery 1 on link 1. -/
def letterFrame : BodyFrame :=
  .sent 0 ⟨[0x61], letter_nulFree⟩ 0 1 1 (by decide) (by decide) (by decide)

def letterBytes : List UInt8 :=
  [0, 0, 0, 28, 2, 0, 0, 0, 0, 0x53, 0x14, 0xc0, 8, 6, 0x52, 1, 0x52, 1, 0x40, 0x43, 0x41, 0x42,
    0, 0x53, 0x75, 0xa0, 1, 0x61]

/-- The letter comes back in one section, but the number of sections is 0. -/
theorem letterFrame_number_zero :
    letterFrame.Built letterBytes ∧
    (∃ back t, amqpDecode letterBytes letterBytes.length = .ok (.ref back) ∧
      back.packet = .ref (.transfer t) ∧ t.sectionNumber = .ref (.is 0) ∧
      t.sections = .ref [dataEntry [0x61]]) ∧
    ¬ letterFrame.RoundTrips := by
  refine ⟨?_, ⟨_, _, rfl, rfl, rfl, rfl⟩, ?_⟩
  · show amqpEncode _ = _
    rfl
  · rintro ⟨data, -, hyields⟩
    exact not_yieldsBodies data letterFrame.bodies_ne_nil hyields

end IotClient.Amqp
