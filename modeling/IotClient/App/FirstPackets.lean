import IotClient.Amqp.Sasl
import IotClient.App.Config
import IotClient.Coap.Session
import IotClient.Mqtt.Client
import IotClient.Mqtt.FrameSize
import IotClient.MqttSn.Client
import IotClient.MqttSn.RoundTrip
import IotClient.Ws.Parser

/-!
# The first packets of a configuration

`FirstPacket` lists the packets that a client sends first. A string of the account that
the file does not set is `NULL`. `setStringsOnly_iff` says for which of the accepted files
neither the validation nor the first packets of the file's protocol read a `NULL`.
-/

namespace IotClient.App

open Mem Machine

/-- The `case`s of `open_connection`. -/
def protocolOfValue : Int → Option Protocol
  | 0 => some .mqtt
  | 1 => some .mqttSn
  | 2 => some .coap
  | 3 => some .amqp
  | 4 => some .websockets
  | _ => none

/-- The account that a client connects with. -/
def Config.account (c : Config) (protocol : Protocol) : Account where
  protocol := protocol
  username := c.username
  password := c.password
  clientId := c.clientId
  cleanSession := c.cleanSession
  keepAlive := c.keepAlive
  willTopic := c.willTopic
  isRetain := c.isRetain
  qos := (c.qos % 2 ^ 32).toNat
  will := c.will

/-- What a run does wrong. -/
def faultOf {α : Type} : Run α → Option Fault
  | .ok _ => none
  | .error e => some e

theorem faultOf_eq {α : Type} {x : Run α} {e : Fault} : faultOf x = some e ↔ x = .error e := by
  cases x <;> simp [faultOf]

/-! ### The packets -/

/-- The CONNECT of `send_connect`. -/
def mqttConnect (account : Account) : Run Block := do
  let message := Mqtt.connectMessage account
  let length ← Mqtt.getLength message
  Mqtt.encode message length

/-- The same over WebSockets, up to its text. -/
def wsConnect (account : Account) : Run Ws.Members :=
  Ws.encodeMessage (Mqtt.connectMessage account)

def snConnect (account : Account) : Run Block := do
  let message := MqttSn.connectMessage account
  let length ← MqttSn.snGetLength message
  MqttSn.snEncode message length

/-- A call of the application, in any state of the client. -/
def coapRequest (account : Account) (c : Coap.Client) (e : Coap.Event) : Run Coap.Client :=
  Coap.Client.step { c with account := account } e

/-- The answer to a MECHANISMS frame. -/
def amqpSaslInit (account : Account) (c : Amqp.Client) (m : Amqp.MechanismsFrame) :
    Run (Amqp.Client × List (Block × Int)) :=
  Amqp.Client.exchange { c with account := account } m.bytes m.bytes.length

def amqpOpen (account : Account) (channel : Int) : Run (Block × Int) :=
  Amqp.amqpEncode
    (Amqp.frameHeader (.is channel) .open (.ref (.open (Amqp.openPacket account))))

/-- The first packets of a protocol. -/
inductive FirstPacket : Protocol → Type where
  | connect : FirstPacket .mqtt
  | wsConnect : FirstPacket .websockets
  | snConnect : FirstPacket .mqttSn
  | request (c : Coap.Client) (e : Coap.Event) (r : Coap.Request) (h : e.request = some r) :
    FirstPacket .coap
  | saslInit (c : Amqp.Client) (m : Amqp.MechanismsFrame) : FirstPacket .amqp
  | amqpOpen (channel : Int) : FirstPacket .amqp

/-- What making and encoding the packet does wrong. -/
def FirstPacket.fault (account : Account) :
    {protocol : Protocol} → FirstPacket protocol → Option Fault
  | _, connect => faultOf (mqttConnect account)
  | _, wsConnect => faultOf (App.wsConnect account)
  | _, snConnect => faultOf (App.snConnect account)
  | _, request c e _ _ => faultOf (coapRequest account c e)
  | _, saslInit c m => faultOf (amqpSaslInit account c m)
  | _, amqpOpen channel => faultOf (App.amqpOpen account channel)

/-- `load_config` reads the file and does not exit. -/
def Accepted (heap : Heap) (file : List UInt8) : Prop :=
  ∃ c, readConfig heap file = .ok c ∧ c.validate ≠ .ok false

/-- `load_config` returns, or crashes in its last check. -/
theorem accepted_iff {heap : Heap} {file : List UInt8} {c : Config}
    (h : readConfig heap file = .ok c) :
    Accepted heap file ↔ loadConfig heap (some file) ≠ .ok none := by
  have haccepted : Accepted heap file ↔ c.validate ≠ .ok false := by
    refine ⟨fun ⟨c', h', hvalidate⟩ => ?_, fun hvalidate => ⟨c, h, hvalidate⟩⟩
    rw [h] at h'
    cases h'
    exact hvalidate
  unfold loadConfig
  simp only [haccepted, h, ok_bind]
  rcases c.validate with e | valid
  · simp
  · cases valid <;> simp

/-- No string that is not set is used. -/
def SetStringsOnly (heap : Heap) (file : List UInt8) : Prop :=
  ∀ c, readConfig heap file = .ok c →
    c.validate ≠ .error .nullDeref ∧
    ∀ protocol, protocolOfValue c.protocol = some protocol →
      ∀ packet : FirstPacket protocol, packet.fault (c.account protocol) ≠ some .nullDeref

/-- The file sets the strings that its protocol needs. -/
structure Complete (file : List UInt8) : Prop where
  /-- MQTT and AMQP -/
  credentials : protocolOf file = 0 ∨ protocolOf file = 3 →
    Sets file .username ∧ Sets file .password
  /-- MQTT-SN and CoAP -/
  will : protocolOf file = 1 ∨ protocolOf file = 2 → Sets file .will

/-! ### The validation -/

section Validation

variable {heap : Heap} {file : List UInt8} {c : Config}

/-- What the checks before that of the will's length leave. -/
structure Config.Checked (c : Config) : Prop where
  clientId : ∃ clientId, c.clientId = some clientId
  keepAlive : 0 ≤ c.keepAlive
  validate : c.validate = if c.Udp then
    (do pure (decide (¬ (← strlen (.ofOption c.will)) > 1399))) else pure true

/-- Behind a check that does not exit. -/
theorem ne_of_guard {p : Prop} [Decidable p] {x : Run Bool}
    (h : (if p then pure false else x) ≠ .ok false) :
    ¬ p ∧ (if p then pure false else x) = x ∧ x ≠ .ok false := by
  by_cases hp : p
  · rw [if_pos hp] at h
    exact absurd rfl h
  · rw [if_neg hp] at h ⊢
    exact ⟨hp, rfl, h⟩

theorem Config.checked (h : c.validate ≠ .ok false) : c.Checked := by
  cases hid : c.clientId with
  | none =>
    refine absurd ?_ h
    unfold validate noClientId
    rw [hid]
    rfl
  | some clientId =>
    have hno : c.noClientId = .ok (decide (clientId.strlen = 0)) := by
      unfold noClientId
      rw [hid]
      rfl
    unfold validate at h
    rw [hno, ok_bind] at h
    obtain ⟨-, hid', h⟩ := ne_of_guard h
    obtain ⟨hkeepAlive, hkeepAlive', h⟩ := ne_of_guard h
    obtain ⟨-, hwill, h⟩ := ne_of_guard h
    obtain ⟨-, hport, -⟩ := ne_of_guard h
    refine ⟨⟨clientId, hid⟩, by omega, ?_⟩
    unfold validate
    rw [hno, ok_bind, hid', hkeepAlive', hwill, hport]

/-- The length of a will that is not set is taken. -/
theorem Config.Checked.validate_iff (h : c.Checked) :
    c.validate ≠ .error .nullDeref ↔ (c.Udp → c.will ≠ none) := by
  rw [h.validate]
  by_cases hudp : c.Udp
  · rw [if_pos hudp]
    cases hwill : c.will with
    | none => simp [Ptr.ofOption, strlen, hudp]
    | some will => simp [Ptr.ofOption, strlen]
  · rw [if_neg hudp]
    simp [hudp]

end Validation

/-! ### What the packets read -/

theorem emittedBlock_ne_nullDeref (n : Nat) (out : List UInt8) :
    emittedBlock n out ≠ .error .nullDeref := by
  unfold emittedBlock
  split <;> simp

section Packets

variable {account : Account} {clientId : CString}

/-- The flag of a will that is there. -/
theorem will_of_flag
    (h : (if account.will ≠ none ∧ account.willTopic ≠ none then 1 else 0 : Int) ≠ 0) :
    Ptr.ofOption account.will = .ref (account.will.getD ∅) ∧
      Ptr.ofOption account.willTopic = .ref (account.willTopic.getD ∅) := by
  have hset : account.will ≠ none ∧ account.willTopic ≠ none := by
    by_contra hnot
    exact h (if_neg hnot)
  obtain ⟨will, hwill⟩ := Option.ne_none_iff_exists'.mp hset.1
  obtain ⟨willTopic, htopic⟩ := Option.ne_none_iff_exists'.mp hset.2
  rw [hwill, htopic]
  exact ⟨rfl, rfl⟩

theorem connectMessage_strings {username password : CString}
    (hid : account.clientId = some clientId) (hu : account.username = some username)
    (hp : account.password = some password) :
    ∃ c qos, Mqtt.connectMessage account = ⟨.is .connect, .ref (.connect c)⟩ ∧
      c.will.topic.qos = .is qos ∧ Nonempty (Mqtt.ConnectStrings c) := by
  refine ⟨_, _, rfl, rfl, ⟨clientId, username, password, account.willTopic.getD ∅,
    account.will.getD ∅, ?_, ?_, ?_, fun h => (will_of_flag h).2, fun h => (will_of_flag h).1⟩⟩
  · rw [hid]
    rfl
  · rw [hu]
    rfl
  · rw [hp]
    rfl

/-- `get_length` reads the user name and the password behind the strings that are set. -/
theorem getLength_connectMessage (hid : account.clientId = some clientId) :
    ∃ length : Nat, Mqtt.getLength (Mqtt.connectMessage account) = (do
      let u ← strlen (.ofOption account.username)
      let p ← strlen (.ofOption account.password)
      pure (length + (if u ≠ 0 then u + 2 else 0) + if p ≠ 0 then p + 2 else 0)) := by
  have hstart : strlen (.ofOption account.clientId) = .ok clientId.bytes.length := by
    rw [hid]
    rfl
  by_cases hflag : (if account.will ≠ none ∧ account.willTopic ≠ none then 1 else 0 : Int) ≠ 0
  · obtain ⟨hwill, htopic⟩ := will_of_flag hflag
    refine ⟨10 + clientId.strlen + 2 +
      ((account.will.getD ∅).strlen + (account.willTopic.getD ∅).strlen + 4), ?_⟩
    change (strlen (.ofOption account.clientId) >>= _) = _
    rw [hstart, ok_bind, if_pos hflag, hwill, htopic]
    rfl
  · refine ⟨10 + clientId.strlen + 2, ?_⟩
    change (strlen (.ofOption account.clientId) >>= _) = _
    rw [hstart, ok_bind, if_neg hflag]
    rfl

theorem mqttConnect_unset (hid : account.clientId = some clientId)
    (h : account.username = none ∨ account.password = none) :
    mqttConnect account = .error .nullDeref := by
  obtain ⟨length, hlength⟩ := getLength_connectMessage hid
  change (Mqtt.getLength (Mqtt.connectMessage account) >>= _) = _
  rw [hlength]
  rcases h with h | h
  · rw [h]
    rfl
  · rw [h]
    cases account.username <;> rfl

theorem mqttConnect_set {username password : CString} (hid : account.clientId = some clientId)
    (hu : account.username = some username) (hp : account.password = some password) :
    mqttConnect account ≠ .error .nullDeref := by
  obtain ⟨c, qos, hmessage, hqos, ⟨strings⟩⟩ := connectMessage_strings hid hu hp
  obtain ⟨flags, hflags⟩ := Mqtt.connectFlags_ok strings fun _ => ⟨qos, hqos⟩
  change (Mqtt.getLength (Mqtt.connectMessage account) >>=
    Mqtt.encode (Mqtt.connectMessage account)) ≠ _
  rw [hmessage, Mqtt.getLength_connect strings, ok_bind, Mqtt.encode_connect,
    Mqtt.encodeConnect_block strings hflags]
  exact emittedBlock_ne_nullDeref _ _

theorem jsonString_ofOption (s : Option CString) : ∃ v, Ws.jsonString (.ofOption s) = .ok v := by
  cases s <;> exact ⟨_, rfl⟩

theorem encodeConnect_ok {c : Mqtt.Connect} (hu : ∃ v, Ws.jsonString c.username = .ok v)
    (hp : ∃ v, Ws.jsonString c.password = .ok v) (hid : ∃ v, Ws.jsonString c.clientId = .ok v)
    (hwill : c.willFlag ≠ 0 → ∃ v, Ws.willValue c.will = .ok v) :
    ∃ text, Ws.encodeConnect c = .ok text := by
  obtain ⟨username, hu⟩ := hu
  obtain ⟨password, hp⟩ := hp
  obtain ⟨clientId, hid⟩ := hid
  unfold Ws.encodeConnect
  simp only [hu, hp, hid, ok_bind]
  by_cases hflag : c.willFlag = 0
  · rw [if_pos hflag]
    exact ⟨_, rfl⟩
  · obtain ⟨will, hwill⟩ := hwill hflag
    rw [if_neg hflag, hwill]
    exact ⟨_, rfl⟩

/-- WebSockets leave a string that is not set out. -/
theorem wsConnect_ne (account : Account) : wsConnect account ≠ .error .nullDeref := by
  have hok : ∃ text, wsConnect account = .ok text := by
    refine encodeConnect_ok (jsonString_ofOption _) (jsonString_ofOption _) (jsonString_ofOption _)
      fun hflag => ?_
    obtain ⟨hwill, htopic⟩ := will_of_flag hflag
    rw [hwill, htopic]
    exact ⟨_, rfl⟩
  obtain ⟨text, htext⟩ := hok
  rw [htext]
  simp

theorem connectBody_emits {sc : MqttSn.SnConnect} (hid : sc.clientId = .ref clientId)
    (length : Int) : ∃ out,
      Emits (MqttSn.snEncodeBody ⟨.connect, .ref (.connect sc)⟩ length) out := by
  obtain ⟨text, htext⟩ : ∃ text, Emits (MqttSn.putText sc.clientId) text := by
    rw [hid]
    exact ⟨_, .lift_ok rfl (.when fun _ => .copy _)⟩
  exact ⟨_, .lift_ok rfl (.seq (.put _) (.seq (.put _) (.seq (addShort_emits _) htext)))⟩

theorem snConnect_ne (hid : account.clientId = some clientId) :
    snConnect account ≠ .error .nullDeref := by
  have hlength : MqttSn.snGetLength (MqttSn.connectMessage account) =
      .ok ((6 + clientId.strlen : Nat) : Int) := by
    unfold MqttSn.snGetLength MqttSn.connectMessage
    rw [hid]
    rfl
  obtain ⟨out, hbody⟩ : ∃ out, Emits (MqttSn.snEncodeBody (MqttSn.connectMessage account)
      (6 + clientId.strlen : Nat)) out :=
    connectBody_emits (by rw [hid]; rfl) _
  have hframe := Emits.seq (MqttSn.putLength_emits (6 + clientId.strlen))
    (.seq (.put (MqttSn.connectMessage account).messageType.toByte) hbody)
  change (MqttSn.snGetLength (MqttSn.connectMessage account) >>=
    MqttSn.snEncode (MqttSn.connectMessage account)) ≠ _
  rw [hlength, ok_bind, MqttSn.snEncode, if_neg (by omega), hframe.block]
  exact emittedBlock_ne_nullDeref _ _

theorem coapRequest_ne (hid : account.clientId = some clientId) (c : Coap.Client) {e : Coap.Event}
    {r : Coap.Request} (h : e.request = some r) : coapRequest account c e ≠ .error .nullDeref := by
  have haccount : ({ c with account := account } : Coap.Client).account.clientId = some clientId :=
    hid
  unfold coapRequest
  rcases Coap.Client.step_set h haccount with ⟨-, out, hstep⟩ | ⟨-, hstep⟩
  · rw [hstep]
    simp
  · rw [hstep]
    simp

section Sasl

variable (c : Amqp.Client) (m : Amqp.MechanismsFrame)

theorem amqpSaslInit_unset (h : account.username = none ∨ account.password = none) :
    amqpSaslInit account c m = .error .nullDeref := by
  have hsend : (m.received { c with account := account }).sendAmqpSaslInit m.header =
      .error .nullDeref := by
    have haccount : (m.received { c with account := account }).account = account := rfl
    unfold Amqp.Client.sendAmqpSaslInit
    rw [haccount]
    rcases h with h | h
    · rw [h]
      rfl
    · rw [h]
      cases account.username <;> rfl
  have hreceive : Amqp.Client.processAmqpRx { c with account := account } m.header =
      .error .nullDeref := hsend
  unfold amqpSaslInit Amqp.Client.exchange
  rw [m.amqpDecode_bytes, ok_bind, Ptr.deref_ref, ok_bind,
    hreceive]
  rfl

theorem amqpSaslInit_set {username password : CString} (hu : account.username = some username)
    (hp : account.password = some password) :
    amqpSaslInit account c m ≠ .error .nullDeref := by
  have husername : ({ c with account := account } : Amqp.Client).account.username = some username :=
    hu
  have hpassword : ({ c with account := account } : Amqp.Client).account.password = some password :=
    hp
  obtain ⟨l, hl, hholds⟩ :=
    Amqp.initArguments_holds m.first (Amqp.plainResponse username password)
  have hargs : Amqp.addArguments (m.initHeader username password) = .ok (.ref l) := hl
  have hinit : Amqp.HeaderCode.init ≠ .transfer := by decide
  have hencode : Amqp.amqpEncode (m.initHeader username password) = .ok _ :=
    Amqp.encodeFrame_eq hinit hargs hholds rfl rfl rfl
  unfold amqpSaslInit Amqp.Client.exchange
  rw [m.amqpDecode_bytes, ok_bind, Ptr.deref_ref, ok_bind,
    m.processAmqpRx_header username password husername hpassword, ok_bind, m.sentHeaders_answered,
    List.mapM_cons, hencode]
  simp

end Sasl

/-- A field that is absent. -/
theorem skip_field {α : Type} {a : Amqp.Args} {ts : List (Option (List UInt8))}
    (wrap : α → Run Amqp.TlvAmqp) (k : Int) (h : Amqp.Collected a ts) (hk : k = ts.length + 1) :
    ∃ a', Amqp.field k .null wrap a = .ok a' ∧ Amqp.Collected a' (ts ++ [none]) :=
  Amqp.field_null k a ts h hk

theorem openArguments_holds (hid : account.clientId = some clientId)
    (hkeepAlive : 0 ≤ account.keepAlive) :
    ∃ l out, Amqp.openArguments (Amqp.openPacket account) = .ok (.ref l) ∧
      Amqp.Holds l.node out := by
  have hcontainer : (Amqp.openPacket account).containerId = .ref clientId := by
    unfold Amqp.openPacket
    rw [hid]
    rfl
  have hidle : 0 ≤ account.keepAlive * 1000 := by omega
  obtain ⟨a₁, h₁, hc₁⟩ :=
    Amqp.field_ref 1 (Amqp.wrapString_holds clientId) .empty [] Amqp.Collected.empty rfl
  obtain ⟨a₂, h₂, hc₂⟩ := skip_field Amqp.wrapString 2 hc₁ rfl
  obtain ⟨a₃, h₃, hc₃⟩ := skip_field Amqp.wrapLong 3 hc₂ rfl
  obtain ⟨a₄, h₄, hc₄⟩ := skip_field Amqp.wrapInt 4 hc₃ rfl
  obtain ⟨a₅, h₅, hc₅⟩ := Amqp.field_ref 5 (Amqp.wrapLong_holds hidle) a₄ _ hc₄ rfl
  obtain ⟨l, hl, hholds⟩ := Amqp.Args.finish_calculated Amqp.HeaderCode.open.toByte hc₅
    (by rw [Amqp.trim_some]; simp)
  refine ⟨l, _, ?_, hholds⟩
  unfold Amqp.openArguments
  rw [hcontainer, Ptr.nonNull_ref, ok_bind, if_pos rfl, h₁, ok_bind]
  change (Amqp.field 2 .null Amqp.wrapString a₁ >>= _) = _
  rw [h₂, ok_bind]
  change (Amqp.field 3 .null Amqp.wrapLong a₂ >>= _) = _
  rw [h₃, ok_bind]
  change (Amqp.field 4 .null Amqp.wrapInt a₃ >>= _) = _
  rw [h₄, ok_bind]
  change (Amqp.field 5 (.ref (account.keepAlive * 1000)) Amqp.wrapLong a₄ >>= _) = _
  rw [h₅, ok_bind, hl]
  rfl

theorem amqpOpen_ne (hid : account.clientId = some clientId) (hkeepAlive : 0 ≤ account.keepAlive)
    (channel : Int) : amqpOpen account channel ≠ .error .nullDeref := by
  obtain ⟨l, out, hl, hholds⟩ := openArguments_holds hid hkeepAlive
  have hargs : Amqp.addArguments (Amqp.frameHeader (.is channel) .open
      (.ref (.open (Amqp.openPacket account)))) = .ok (.ref l) := hl
  have hopen : Amqp.HeaderCode.open ≠ .transfer := by decide
  have hencode : amqpOpen account channel = .ok _ :=
    Amqp.encodeFrame_eq hopen hargs hholds rfl rfl rfl
  rw [hencode]
  simp

end Packets

/-! ### The configuration -/

/-- The protocols whose first packets hold the user name and the password. -/
def Authenticates (protocol : Protocol) : Prop := protocol = .mqtt ∨ protocol = .amqp

theorem protocolOfValue_authenticates {value : Int} {protocol : Protocol}
    (h : protocolOfValue value = some protocol) :
    Authenticates protocol ↔ value = 0 ∨ value = 3 := by
  unfold protocolOfValue at h
  split at h <;> cases h <;> simp [Authenticates]

namespace FirstPacket

variable {account : Account} {clientId : CString} {protocol : Protocol}

theorem fault_ne (packet : FirstPacket protocol) (hid : account.clientId = some clientId)
    (hkeepAlive : 0 ≤ account.keepAlive)
    (hset : Authenticates protocol → account.username ≠ none ∧ account.password ≠ none) :
    packet.fault account ≠ some .nullDeref := by
  cases packet with
  | connect =>
    obtain ⟨hu, hp⟩ := hset (.inl rfl)
    obtain ⟨username, hu⟩ := Option.ne_none_iff_exists'.mp hu
    obtain ⟨password, hp⟩ := Option.ne_none_iff_exists'.mp hp
    exact fun h => mqttConnect_set hid hu hp (faultOf_eq.mp h)
  | wsConnect => exact fun h => wsConnect_ne account (faultOf_eq.mp h)
  | snConnect => exact fun h => snConnect_ne hid (faultOf_eq.mp h)
  | request c e r hr => exact fun h => coapRequest_ne hid c hr (faultOf_eq.mp h)
  | saslInit c m =>
    obtain ⟨hu, hp⟩ := hset (.inr rfl)
    obtain ⟨username, hu⟩ := Option.ne_none_iff_exists'.mp hu
    obtain ⟨password, hp⟩ := Option.ne_none_iff_exists'.mp hp
    exact fun h => amqpSaslInit_set c m hu hp (faultOf_eq.mp h)
  | amqpOpen channel => exact fun h => amqpOpen_ne hid hkeepAlive channel (faultOf_eq.mp h)

theorem exists_fault (hid : account.clientId = some clientId) (hprotocol : Authenticates protocol)
    (hunset : account.username = none ∨ account.password = none) :
    ∃ packet : FirstPacket protocol, packet.fault account = some .nullDeref := by
  rcases hprotocol with rfl | rfl
  · exact ⟨connect, faultOf_eq.mpr (mqttConnect_unset hid hunset)⟩
  · exact ⟨saslInit (.init account) Amqp.plainMechanisms,
      faultOf_eq.mpr (amqpSaslInit_unset _ _ hunset)⟩

end FirstPacket

theorem setStringsOnly_of_read {heap : Heap} {file : List UInt8} {c : Config}
    (h : readConfig heap file = .ok c) :
    SetStringsOnly heap file ↔ c.validate ≠ .error .nullDeref ∧
      ∀ protocol, protocolOfValue c.protocol = some protocol →
        ∀ packet : FirstPacket protocol,
          packet.fault (c.account protocol) ≠ some .nullDeref := by
  refine ⟨fun hset => hset c h, fun hset c' h' => ?_⟩
  rw [h] at h'
  cases h'
  exact hset

/-- A configuration that is accepted uses set strings only when it has those of its protocol. -/
theorem setStringsOnly_iff (heap : Heap) (file : List UInt8) (h : Accepted heap file) :
    SetStringsOnly heap file ↔ Complete file := by
  obtain ⟨c, hread, hvalidate⟩ := h
  have hchecked := Config.checked hvalidate
  obtain ⟨clientId, hid⟩ := hchecked.clientId
  have hprotocol : c.protocol = protocolOf file := readConfig_protocol hread
  have hsets := fun k => readConfig_string (k := k) hread
  have husername : c.username ≠ none ↔ Sets file .username := hsets .username
  have hpassword : c.password ≠ none ↔ Sets file .password := hsets .password
  have hwill : c.will ≠ none ↔ Sets file .will := hsets .will
  rw [setStringsOnly_of_read hread, hchecked.validate_iff, Config.Udp, hprotocol, hwill]
  constructor
  · rintro ⟨hudp, hpackets⟩
    refine ⟨fun hvalue => ?_, hudp⟩
    obtain ⟨protocol, hof⟩ : ∃ protocol, protocolOfValue (protocolOf file) = some protocol := by
      rcases hvalue with hvalue | hvalue <;> rw [hvalue] <;> exact ⟨_, rfl⟩
    have hauth := (protocolOfValue_authenticates hof).mpr hvalue
    rw [← husername, ← hpassword]
    by_contra hunset
    have hnone : c.username = none ∨ c.password = none := by
      by_contra hset
      push Not at hset
      exact hunset hset
    obtain ⟨packet, hfault⟩ : ∃ packet : FirstPacket protocol,
        packet.fault (c.account protocol) = some .nullDeref :=
      FirstPacket.exists_fault hid hauth hnone
    exact hpackets protocol hof packet hfault
  · intro hcomplete
    refine ⟨hcomplete.will, fun protocol hof packet => ?_⟩
    have hset : (c.account protocol).clientId = some clientId := hid
    refine packet.fault_ne hset hchecked.keepAlive fun hauth => ?_
    obtain ⟨hu, hp⟩ := hcomplete.credentials ((protocolOfValue_authenticates hof).mp hauth)
    exact ⟨husername.mpr hu, hpassword.mpr hp⟩

/-- A `malloc` with room for a terminator, of memory that is 0. -/
def zeroHeap : Heap := ⟨fun _ => true, fun _ => [], 0⟩

/-- A file of the lines `clientId:a` and `port:1`. -/
def anonymousFile : List UInt8 := (CString.literal "clientId:a\nport:1\n").bytes

def anonymousConfig : Config :=
  { Config.initial zeroHeap with clientId := some (.literal "a"), serverPort := 1 }

theorem read_anonymousFile : readConfig zeroHeap anonymousFile = .ok anonymousConfig := by
  decide +kernel

/-- The configuration with a user name and a password. -/
def userFile : List UInt8 :=
  anonymousFile ++ (CString.literal "username:u\npassword:p\n").bytes

def userConfig : Config :=
  { anonymousConfig with username := some (.literal "u"), password := some (.literal "p") }

theorem read_userFile : readConfig zeroHeap userFile = .ok userConfig := by
  decide +kernel

theorem setStringsOnly_userFile :
    Accepted zeroHeap userFile ∧ SetStringsOnly zeroHeap userFile := by
  have haccepted : Accepted zeroHeap userFile := ⟨userConfig, read_userFile, by decide +kernel⟩
  have husername : userConfig.string .username ≠ none := Option.some_ne_none _
  have hpassword : userConfig.string .password ≠ none := Option.some_ne_none _
  have hcomplete : Complete userFile := by
    refine ⟨fun _ => ⟨(readConfig_string read_userFile).mp husername,
      (readConfig_string read_userFile).mp hpassword⟩, ?_⟩
    rw [← readConfig_protocol read_userFile]
    exact fun hudp => absurd hudp (by decide)
  exact ⟨haccepted, (setStringsOnly_iff zeroHeap userFile haccepted).mpr hcomplete⟩

/-- MQTT without a user name. -/
theorem anonymousFile_reads_null :
    Accepted zeroHeap anonymousFile ∧ ¬ SetStringsOnly zeroHeap anonymousFile := by
  refine ⟨⟨anonymousConfig, read_anonymousFile, by decide +kernel⟩, fun h => ?_⟩
  have hnull : mqttConnect (anonymousConfig.account .mqtt) = .error .nullDeref :=
    mqttConnect_unset (rfl : anonymousConfig.clientId = some (.literal "a")) (.inl rfl)
  exact (h anonymousConfig read_anonymousFile).2 .mqtt rfl .connect (faultOf_eq.mpr hnull)

end IotClient.App
