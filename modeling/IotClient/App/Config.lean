import IotClient.Account

/-!
# The configuration file (`app.c`)

`load_config` splits the file into lines with `fgets` and looks for the property that a line
names (`properties`). `Config` is what the properties set: the account and the variables of
`app.c`. A string is copied without the last character of its line and without a terminator, and
a 0 is stored behind the copy's block; what `malloc` makes of both is the parameter `Heap`.
-/

namespace IotClient.App

open Mem

/-- What `malloc` leaves open. -/
structure Heap where
  /-- a block of this size has room for one more byte -/
  padded : Nat → Bool
  /-- the bytes behind the characters of the string that a line sets -/
  behind : Nat → List UInt8
  /-- the member `clean_session` of a new account -/
  cleanSession : Int

/-! ### Properties -/

inductive StringKey where
  | username | password | clientId | serverHost | willTopic | will | certificate
  | certificatePassword | topicName
  deriving DecidableEq, Repr

inductive NumberKey where
  | protocol | serverPort | keepAlive | qos | periodMessageResend | messageQos
  deriving DecidableEq, Repr

inductive FlagKey where
  | cleanSession | isRetain | isSecure | messageRetain | messageDup
  deriving DecidableEq, Repr

inductive Key where
  | string (k : StringKey)
  | number (k : NumberKey)
  | flag (k : FlagKey)
  deriving DecidableEq, Repr

/-- A condition of the chain of `else if`s. -/
structure Property where
  name : String
  /-- the value must not start with a newline -/
  nonEmpty : Bool
  key : Key

/-- The chain; `willTopic` is looked for within `will`. -/
def properties : List Property :=
  [⟨"protocol", false, .number .protocol⟩, ⟨"username", true, .string .username⟩,
    ⟨"password", true, .string .password⟩, ⟨"clientId", false, .string .clientId⟩,
    ⟨"host", false, .string .serverHost⟩, ⟨"port", false, .number .serverPort⟩,
    ⟨"cleanSession", false, .flag .cleanSession⟩, ⟨"keepAlive", false, .number .keepAlive⟩,
    ⟨"willTopic", true, .string .willTopic⟩, ⟨"will", true, .string .will⟩,
    ⟨"retain", false, .flag .isRetain⟩, ⟨"qos", false, .number .qos⟩,
    ⟨"isSecure", false, .flag .isSecure⟩, ⟨"certKeyPath", true, .string .certificate⟩,
    ⟨"certPassword", true, .string .certificatePassword⟩, ⟨"topicName", false, .string .topicName⟩,
    ⟨"period", false, .number .periodMessageResend⟩, ⟨"messageQos", false, .number .messageQos⟩,
    ⟨"messageRetain", false, .flag .messageRetain⟩, ⟨"messageDup", false, .flag .messageDup⟩]

def toLower (c : UInt8) : UInt8 := if 0x41 ≤ c ∧ c ≤ 0x5a then c + 0x20 else c

/-- `strncasecmp(s, name, strlen(name)) == 0` -/
def startsWith (s : CString) (name : String) : Bool :=
  ((CString.literal name).bytes.map toLower).isPrefixOf (s.bytes.map toLower)

def Property.matches (p : Property) (key value : CString) : Bool :=
  startsWith key p.name && !(p.nonEmpty && value.bytes.head? == some 10)

/-! ### Lines -/

/-- `fgets(line, n + 1, file)`, and the rest of the file. -/
def fgets : Nat → List UInt8 → List UInt8 × List UInt8
  | 0, file => ([], file)
  | _ + 1, [] => ([], [])
  | n + 1, c :: file =>
    if c = 10 then ([c], file)
    else
      let (line, rest) := fgets n file
      (c :: line, rest)

/-- `MAXBUF` -/
def maxBuf : Nat := 1024

/-- The lines of the loop. -/
def readLines : Nat → List UInt8 → List (List UInt8)
  | 0, _ => []
  | _ + 1, [] => []
  | fuel + 1, file =>
    let (line, rest) := fgets (maxBuf - 1) file
    line :: readLines fuel rest

def lines (file : List UInt8) : List (List UInt8) := readLines file.length file

/-- A comment, an empty line or one that starts with a blank. -/
def Skipped (line : List UInt8) : Prop :=
  line.head? = some 0x23 ∨ line.head? = some 10 ∨ line.head? = some 32

instance (line : List UInt8) : Decidable (Skipped line) := inferInstanceAs (Decidable (_ ∨ _))

/-- `strtok(line, ":")` -/
def strtok (line : CString) : Option CString :=
  let token := (line.bytes.dropWhile (· = 0x3a)).takeWhile (· ≠ 0x3a)
  if token = [] then none else some (CString.ofBytes token)

/-- What follows the first `:`. -/
def afterDelim (line : CString) : Option CString :=
  match line.bytes.dropWhile (· ≠ 0x3a) with
  | [] => none
  | _ :: value => some (CString.ofBytes value)

/-- The property that a line sets, with its value. Without a `:` the value is taken from behind
`NULL`. -/
def parseLine (line : List UInt8) : Run (Option (Key × CString)) :=
  if Skipped line then pure none
  else
    match strtok (CString.ofBytes line), afterDelim (CString.ofBytes line) with
    | some key, some value =>
      pure ((properties.find? (·.matches key value)).map fun p => (p.key, value))
    | none, _ => .error .nullDeref
    | some _, none => .error .readOut

/-- `get_str_from_value`, and the copies of what it returns. -/
def getStrFromValue (heap : Heap) (behind : List UInt8) (value : CString) : Run CString :=
  -- the size of the `memcpy` is that of the value less 1
  if value.strlen = 0 then .error .negativeSize
  else if heap.padded value.strlen then pure (CString.ofBytes (value.bytes.dropLast ++ behind))
  else .error .writeOut

/-! ### The account -/

structure Config where
  protocol : Int
  username : Option CString
  password : Option CString
  clientId : Option CString
  serverHost : Option CString
  serverPort : Int
  cleanSession : Int
  keepAlive : Int
  willTopic : Option CString
  isRetain : Int
  qos : Int
  will : Option CString
  isSecure : Int
  certificate : Option CString
  certificatePassword : Option CString
  topicName : Option CString
  periodMessageResend : Int
  messageQos : Int
  messageRetain : Int
  messageDup : Int
  deriving DecidableEq

namespace Config

/-- The account and the variables before the file is read. -/
def initial (heap : Heap) : Config where
  protocol := 0
  username := none
  password := none
  clientId := none
  serverHost := none
  serverPort := 0
  cleanSession := heap.cleanSession
  keepAlive := 0
  willTopic := none
  isRetain := 0
  qos := 0
  will := none
  isSecure := 0
  certificate := none
  certificatePassword := none
  topicName := none
  periodMessageResend := 60
  messageQos := 0
  messageRetain := 0
  messageDup := 0

variable (c : Config)

def string : StringKey → Option CString
  | .username => c.username
  | .password => c.password
  | .clientId => c.clientId
  | .serverHost => c.serverHost
  | .willTopic => c.willTopic
  | .will => c.will
  | .certificate => c.certificate
  | .certificatePassword => c.certificatePassword
  | .topicName => c.topicName

def setString (s : CString) : StringKey → Config
  | .username => { c with username := some s }
  | .password => { c with password := some s }
  | .clientId => { c with clientId := some s }
  | .serverHost => { c with serverHost := some s }
  | .willTopic => { c with willTopic := some s }
  | .will => { c with will := some s }
  | .certificate => { c with certificate := some s }
  | .certificatePassword => { c with certificatePassword := some s }
  | .topicName => { c with topicName := some s }

def setNumber (n : Int) : NumberKey → Config
  | .protocol => { c with protocol := n }
  | .serverPort => { c with serverPort := n }
  | .keepAlive => { c with keepAlive := n }
  | .qos => { c with qos := n }
  | .periodMessageResend => { c with periodMessageResend := n }
  | .messageQos => { c with messageQos := n }

def setFlag (n : Int) : FlagKey → Config
  | .cleanSession => { c with cleanSession := n }
  | .isRetain => { c with isRetain := n }
  | .isSecure => { c with isSecure := n }
  | .messageRetain => { c with messageRetain := n }
  | .messageDup => { c with messageDup := n }

/-- The body of the `else if` of a property. -/
def assign (heap : Heap) (behind : List UInt8) (value : CString) : Key → Run Config
  | .string k => do pure (c.setString (← getStrFromValue heap behind value) k)
  | .number k => pure (c.setNumber (atoi value) k)
  | .flag k => do
    let valueStr ← getStrFromValue heap behind value
    pure (c.setFlag (if startsWith valueStr "true" then 1 else 0) k)

def loadLine (heap : Heap) (behind line : List UInt8) : Run Config := do
  match ← parseLine line with
  | none => pure c
  | some (key, value) => c.assign heap behind value key

/-- The lines from the `i`-th on. -/
def loadLines (heap : Heap) : Nat → Config → List (List UInt8) → Run Config
  | _, c, [] => pure c
  | i, c, line :: lines => do loadLines heap (i + 1) (← c.loadLine heap (heap.behind i) line) lines

/-- `USHRT_MAX` -/
def ushrtMax : Int := 65535

/-- `client_id == NULL || strlen(client_id) == 0` -/
def noClientId : Run Bool := do
  if c.clientId = none then pure true else pure ((← strlen (.ofOption c.clientId)) = 0)

/-- Of the will and its topic one is set. -/
def HalfWill : Prop :=
  (c.will = none ∧ c.willTopic ≠ none) ∨ (c.will ≠ none ∧ c.willTopic = none)

instance : Decidable c.HalfWill := inferInstanceAs (Decidable (_ ∨ _))

/-- The protocol is MQTT-SN or CoAP. -/
def Udp : Prop := c.protocol = 1 ∨ c.protocol = 2

instance : Decidable c.Udp := inferInstanceAs (Decidable (_ ∨ _))

/-- The validation; `false` is `exit(1)`. -/
def validate : Run Bool := do
  if ← c.noClientId then pure false
  else if c.keepAlive < 0 ∨ c.keepAlive > ushrtMax then pure false
  else if c.HalfWill then pure false
  else if c.serverPort < 1 ∨ c.serverPort > ushrtMax then pure false
  else if c.Udp then do pure (decide (¬ (← strlen (.ofOption c.will)) > 1399))
  else pure true

end Config

/-- The loop of `load_config`. -/
def readConfig (heap : Heap) (file : List UInt8) : Run Config :=
  Config.loadLines heap 0 (.initial heap) (lines file)

/-- `none` is `exit(1)`, also for a missing file. -/
def loadConfig (heap : Heap) (file : Option (List UInt8)) : Run (Option Config) :=
  match file with
  | none => pure none
  | some file => do
    let c ← readConfig heap file
    if ← c.validate then pure (some c) else pure none

/-! ### Lines -/

theorem fgets_append (n : Nat) (file : List UInt8) : (fgets n file).1 ++ (fgets n file).2 = file := by
  induction n generalizing file with
  | zero => rfl
  | succ n ih =>
    cases file with
    | nil => rfl
    | cons c file =>
      unfold fgets
      split
      · rfl
      · rw [List.cons_append, ih]

theorem fgets_pos (n : Nat) (c : UInt8) (file : List UInt8) :
    0 < (fgets (n + 1) (c :: file)).1.length := by
  unfold fgets
  split <;> exact Nat.succ_pos _

theorem flatten_readLines {fuel : Nat} {file : List UInt8} (h : file.length ≤ fuel) :
    (readLines fuel file).flatten = file := by
  induction fuel generalizing file with
  | zero => rw [List.eq_nil_of_length_eq_zero (Nat.le_zero.mp h)]; rfl
  | succ fuel ih =>
    cases file with
    | nil => rfl
    | cons c file =>
      have happend := fgets_append (maxBuf - 1) (c :: file)
      have hpos : 0 < (fgets (maxBuf - 1) (c :: file)).1.length := fgets_pos (maxBuf - 2) c file
      have hlen := congrArg List.length happend
      rw [List.length_append] at hlen
      rw [readLines, List.flatten_cons, ih (by omega), happend]
      exact List.cons_ne_nil c file

/-- The loop reads the whole file. -/
theorem flatten_lines (file : List UInt8) : (lines file).flatten = file :=
  flatten_readLines (Nat.le_refl _)

/-! ### What a file sets -/

/-- The property that a line sets. -/
def keyOf (line : List UInt8) : Option Key :=
  match parseLine line with
  | .ok (some (key, _)) => some key
  | _ => none

/-- A line of the file sets the string. -/
def Sets (file : List UInt8) (k : StringKey) : Prop :=
  ∃ line ∈ lines file, keyOf line = some (.string k)

/-- The protocol after a line. -/
def protocolAfter (protocol : Int) (line : List UInt8) : Int :=
  match parseLine line with
  | .ok (some (.number .protocol, value)) => atoi value
  | _ => protocol

/-- The protocol of the last line that sets it, and MQTT if there is none. -/
def protocolOf (file : List UInt8) : Int := (lines file).foldl protocolAfter 0

namespace Config

variable {heap : Heap} {behind line : List UInt8} {c c' : Config} {k : StringKey}

theorem string_setString (c : Config) (s : CString) (k k' : StringKey) :
    (c.setString s k').string k = if k' = k then some s else c.string k := by
  cases k' <;> cases k <;> rfl

theorem string_setNumber (c : Config) (n : Int) (k : StringKey) (k' : NumberKey) :
    (c.setNumber n k').string k = c.string k := by
  cases k' <;> cases k <;> rfl

theorem string_setFlag (c : Config) (n : Int) (k : StringKey) (k' : FlagKey) :
    (c.setFlag n k').string k = c.string k := by
  cases k' <;> cases k <;> rfl

theorem protocol_setString (c : Config) (s : CString) (k : StringKey) :
    (c.setString s k).protocol = c.protocol := by
  cases k <;> rfl

theorem protocol_setFlag (c : Config) (n : Int) (k : FlagKey) :
    (c.setFlag n k).protocol = c.protocol := by
  cases k <;> rfl

/-- A string is set by the lines that set it, and stays set. -/
theorem loadLine_string (h : c.loadLine heap behind line = .ok c') :
    c'.string k ≠ none ↔ c.string k ≠ none ∨ keyOf line = some (.string k) := by
  obtain ⟨property, hline, h⟩ := bind_eq_ok.mp h
  have hkey : keyOf line = property.map Prod.fst := by
    unfold keyOf
    rw [hline]
    cases property <;> rfl
  rw [hkey]
  cases property with
  | none =>
    cases h
    simp
  | some property =>
    obtain ⟨key, value⟩ := property
    cases key with
    | string k' =>
      obtain ⟨s, -, h⟩ := bind_eq_ok.mp h
      cases h
      rw [string_setString]
      by_cases hk : k' = k <;> simp [hk]
    | number k' =>
      cases h
      rw [string_setNumber]
      simp
    | flag k' =>
      obtain ⟨s, -, h⟩ := bind_eq_ok.mp h
      cases h
      rw [string_setFlag]
      simp

theorem loadLine_protocol (h : c.loadLine heap behind line = .ok c') :
    c'.protocol = protocolAfter c.protocol line := by
  obtain ⟨property, hline, h⟩ := bind_eq_ok.mp h
  unfold protocolAfter
  rw [hline]
  cases property with
  | none =>
    cases h
    rfl
  | some property =>
    obtain ⟨key, value⟩ := property
    cases key with
    | string k' =>
      obtain ⟨s, -, h⟩ := bind_eq_ok.mp h
      cases h
      exact protocol_setString ..
    | number k' =>
      cases h
      cases k' <;> rfl
    | flag k' =>
      obtain ⟨s, -, h⟩ := bind_eq_ok.mp h
      cases h
      exact protocol_setFlag ..

variable {lines : List (List UInt8)} {i : Nat}

theorem loadLines_string (h : loadLines heap i c lines = .ok c') :
    c'.string k ≠ none ↔ c.string k ≠ none ∨ ∃ line ∈ lines, keyOf line = some (.string k) := by
  induction lines generalizing i c with
  | nil =>
    cases h
    simp
  | cons line lines ih =>
    obtain ⟨c₁, hline, h⟩ := bind_eq_ok.mp h
    rw [ih h, loadLine_string hline, List.exists_mem_cons_iff, or_assoc]

theorem loadLines_protocol (h : loadLines heap i c lines = .ok c') :
    c'.protocol = lines.foldl protocolAfter c.protocol := by
  induction lines generalizing i c with
  | nil =>
    cases h
    rfl
  | cons line lines ih =>
    obtain ⟨c₁, hline, h⟩ := bind_eq_ok.mp h
    rw [ih h, loadLine_protocol hline, List.foldl_cons]

end Config

section Read

variable {heap : Heap} {file : List UInt8} {c : Config}

theorem readConfig_string {k : StringKey} (h : readConfig heap file = .ok c) :
    c.string k ≠ none ↔ Sets file k := by
  have hinitial : (Config.initial heap).string k = none := by
    cases k <;> rfl
  rw [Config.loadLines_string h, hinitial]
  simp [Sets]

theorem readConfig_protocol (h : readConfig heap file = .ok c) : c.protocol = protocolOf file :=
  Config.loadLines_protocol h

end Read

end IotClient.App
