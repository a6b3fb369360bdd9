/-
# The CONNECT of MQTT

A reader of CONNECT packets as MQTT 3.1.1 describes them, for clients without a will: the flags
say which fields follow, the password only behind a user name, and nothing follows the last
field. The packets of the driver are read back, field by field.
-/

import ApiVoy.Drivers.Mqtt

namespace ApiVoy.Drivers.Mqtt

open Foundation Domain Engine

/-! ## Reading a packet -/

/-- A length in digits to the base 128, and what follows it. -/
def takeLength : Nat → Bytes → Option (Nat × Bytes)
  | 0, _ => none
  | _, [] => none
  | rounds + 1, byte :: rest =>
    if byte &&& 128 = 0 then some ((byte &&& 127).toNat, rest)
    else (takeLength rounds rest).map fun (length, rest) =>
      ((byte &&& 127).toNat + 128 * length, rest)

/-- The header byte and the body of exactly one packet. -/
def splitPacket : Bytes → Option (UInt8 × Bytes)
  | [] => none
  | header :: rest =>
    (takeLength 4 rest).bind fun (length, body) =>
      if body.length = length then some (header, body) else none

/-- A field with its length in front of it, and what follows. -/
def takeField (input : Bytes) : Option (Bytes × Bytes) :=
  let length := readBE (input.take 2)
  let rest := input.drop 2
  if input.length < 2 ∨ rest.length < length then none
  else some (rest.take length, rest.drop length)

def takeText (input : Bytes) : Option (String × Bytes) :=
  (takeField input).bind fun (field, rest) => (fromUtf8 field).map fun text => (text, rest)

/-- The fields of a CONNECT without a will. -/
structure Connect where
  cleanSession : Bool
  keepAlive : Nat
  clientId : String
  username : Option String
  password : Option Bytes
  deriving DecidableEq

def userNameFlag : UInt8 := 0x80

def passwordFlag : UInt8 := 0x40

def cleanFlag : UInt8 := 0x02

/-- The reserved bit and the bits for a will. -/
def otherFlags : UInt8 := 0x3D

/-- A field that follows when its flag is set. -/
def takeFlagged {α : Type} (take : Bytes → Option (α × Bytes)) (flags flag : UInt8)
    (input : Bytes) : Option (Option α × Bytes) :=
  if flags &&& flag = 0 then some (none, input)
  else (take input).map fun (field, rest) => (some field, rest)

/-- The fields behind the fixed part of a CONNECT. -/
def takeConnectFields (flags : UInt8) (keepAlive : Nat) (input : Bytes) : Option Connect := do
  let (clientId, input) ← takeText input
  let (username, input) ← takeFlagged takeText flags userNameFlag input
  let (password, input) ← takeFlagged takeField flags passwordFlag input
  if input = [] ∧ (clientId ≠ "" ∨ flags &&& cleanFlag ≠ 0) then
    some ⟨decide (flags &&& cleanFlag ≠ 0), keepAlive, clientId, username, password⟩
  else none

/-- A CONNECT of MQTT 3.1.1: a password comes with a user name only, and a session of an
anonymous client is a clean one. -/
def readConnect (bytes : Bytes) : Option Connect := do
  let (header, body) ← splitPacket bytes
  let (name, body) ← takeText body
  match body with
  | level :: flags :: high :: low :: fields =>
    if header = 0x10 ∧ name = "MQTT" ∧ level = 4 ∧ flags &&& otherFlags = 0 ∧
        (flags &&& passwordFlag ≠ 0 → flags &&& userNameFlag ≠ 0) then
      takeConnectFields flags (readBE [high, low]) fields
    else none
  | _ => none

/-! ## Packets are read back -/

theorem takeLength_remainingLength {rounds n : Nat} (hn : n < 128 ^ rounds) (hrounds : 0 < rounds)
    (rest : Bytes) : takeLength rounds (remainingLength n ++ rest) = some (n, rest) := by
  induction rounds generalizing n with
  | zero => exact absurd hrounds (Nat.lt_irrefl 0)
  | succ rounds ih =>
    have hdigit : n % 128 < 128 := Nat.mod_lt n (by decide)
    rw [remainingLength]
    by_cases hlast : n / 128 = 0
    · obtain ⟨hzero, hvalue⟩ := digit_last ⟨n % 128, hdigit⟩
      have hsmall : n % 128 = n := Nat.mod_eq_of_lt (by omega)
      rw [if_pos hlast, List.singleton_append, takeLength, if_pos hzero, hvalue]
      exact congrArg (fun n => some (n, rest)) hsmall
    · obtain ⟨hnonzero, hvalue⟩ := digit_more ⟨n % 128, hdigit⟩
      have hdiv : n / 128 < 128 ^ rounds := by
        rw [Nat.div_lt_iff_lt_mul (by decide)]
        exact hn
      have hmore : 0 < rounds := by
        by_contra hzero
        rw [Nat.eq_zero_of_not_pos hzero] at hdiv
        exact hlast (Nat.lt_one_iff.mp hdiv)
      rw [if_neg hlast, List.cons_append, takeLength, if_neg hnonzero, ih hdiv hmore, hvalue]
      exact congrArg (fun n => some (n, rest)) (Nat.mod_add_div n 128)

theorem splitPacket_packet (header : UInt8) {body : Bytes} (h : body.length < 128 ^ 4) :
    splitPacket (packet header body) = some (header, body) := by
  rw [packet, splitPacket, takeLength_remainingLength h (by decide), Option.bind_some]
  exact if_pos rfl

/-- A field as it is pushed. -/
def field (value : String) : Bytes := beBytes 2 (utf8 value).length ++ utf8 value

variable {value : String}

theorem pushUtf8_eq_ok_iff {output bytes : Bytes} :
    pushUtf8 output value = .ok bytes ↔
      (utf8 value).length ≤ 65535 ∧ bytes = output ++ field value := by
  unfold pushUtf8 field
  split
  · rename_i hlong
    exact iff_of_false (fun h => by cases h) fun h => absurd h.1 (not_le.mpr hlong)
  · rename_i hshort
    rw [Except.ok.injEq, and_iff_right (not_lt.mp hshort), eq_comm]

theorem takeField_field (h : (utf8 value).length ≤ 65535) (rest : Bytes) :
    takeField (field value ++ rest) = some (utf8 value, rest) := by
  have htake : (field value ++ rest).take 2 = beBytes 2 (utf8 value).length := by
    rw [field, List.append_assoc]
    exact List.take_left' (length_beBytes 2 _)
  have hdrop : (field value ++ rest).drop 2 = utf8 value ++ rest := by
    rw [field, List.append_assoc]
    exact List.drop_left' (length_beBytes 2 _)
  have hlength : readBE (beBytes 2 (utf8 value).length) = (utf8 value).length :=
    readBE_beBytes (by omega)
  have hlong : ¬((field value ++ rest).length < 2 ∨
      (utf8 value ++ rest).length < (utf8 value).length) := by
    simp only [field, List.length_append, length_beBytes]
    omega
  simp only [takeField, htake, hdrop, hlength]
  rw [if_neg hlong, List.take_left, List.drop_left]

theorem takeText_field (h : (utf8 value).length ≤ 65535) (rest : Bytes) :
    takeText (field value ++ rest) = some (value, rest) := by
  rw [takeText, takeField_field h, Option.bind_some]
  dsimp only
  rw [fromUtf8_utf8, Option.map_some]

/-! ## The CONNECT of the driver -/

def connectFlags (payload : MqttRequest) : UInt8 :=
  (if payload.cleanSession = true then 0x02 else 0) |||
    ((if payload.username.isSome = true then 0x80 else 0) |||
      (if payload.password.isSome = true then 0x40 else 0))

def connectBody (payload : MqttRequest) : Bytes :=
  field "MQTT" ++ ([4, connectFlags payload] ++ beBytes 2 payload.keepAlive) ++
    field payload.clientId ++ payload.username.elim [] field ++ payload.password.elim [] field

/-- The texts of a CONNECT fit in their fields. -/
structure FitsConnect (payload : MqttRequest) : Prop where
  clientId : (utf8 payload.clientId).length ≤ 65535
  username : ∀ username ∈ payload.username, (utf8 username).length ≤ 65535
  password : ∀ password ∈ payload.password, (utf8 password).length ≤ 65535

variable {payload : MqttRequest}

theorem connectPacket_eq_ok {bytes : Bytes} (h : connectPacket payload = .ok bytes) :
    FitsConnect payload ∧ bytes = packet 0x10 (connectBody payload) := by
  obtain ⟨mode, clientId, username, password, cleanSession, keepAlive, topic, data, qos, retain,
    limit⟩ := payload
  have hnone : ∀ text ∈ (none : Option String), (utf8 text).length ≤ 65535 :=
    fun _ hmem => by cases hmem
  have hsome : ∀ {text : String}, (utf8 text).length ≤ 65535 →
      ∀ other ∈ some text, (utf8 other).length ≤ 65535 := by
    rintro text hfits other hmem
    cases hmem
    exact hfits
  unfold connectPacket at h
  obtain ⟨name, hname, h⟩ := bind_eq_ok_iff.mp h
  obtain ⟨id, hid, h⟩ := bind_eq_ok_iff.mp h
  obtain ⟨_, rfl⟩ := pushUtf8_eq_ok_iff.mp hname
  obtain ⟨hclient, rfl⟩ := pushUtf8_eq_ok_iff.mp hid
  cases username with
  | none =>
    obtain ⟨user, hsame, h⟩ := bind_eq_ok_iff.mp h
    cases hsame
    cases password with
    | none =>
      cases h
      exact ⟨⟨hclient, hnone, hnone⟩, by simp [connectBody, connectFlags]⟩
    | some password =>
      obtain ⟨pass, hpass, h⟩ := bind_eq_ok_iff.mp h
      obtain ⟨hfits, rfl⟩ := pushUtf8_eq_ok_iff.mp hpass
      cases h
      exact ⟨⟨hclient, hnone, hsome hfits⟩, by simp [connectBody, connectFlags]⟩
  | some username =>
    obtain ⟨user, huser, h⟩ := bind_eq_ok_iff.mp h
    obtain ⟨huserFits, rfl⟩ := pushUtf8_eq_ok_iff.mp huser
    cases password with
    | none =>
      cases h
      exact ⟨⟨hclient, hsome huserFits, hnone⟩, by simp [connectBody, connectFlags]⟩
    | some password =>
      obtain ⟨pass, hpass, h⟩ := bind_eq_ok_iff.mp h
      obtain ⟨hfits, rfl⟩ := pushUtf8_eq_ok_iff.mp hpass
      cases h
      exact ⟨⟨hclient, hsome huserFits, hsome hfits⟩, by simp [connectBody, connectFlags]⟩

/-- The flags of the driver set exactly the bits of its fields. -/
theorem connectFlags_bits (payload : MqttRequest) :
    connectFlags payload &&& otherFlags = 0 ∧
      (connectFlags payload &&& userNameFlag = 0 ↔ payload.username = none) ∧
        (connectFlags payload &&& passwordFlag = 0 ↔ payload.password = none) ∧
          (connectFlags payload &&& cleanFlag = 0 ↔ payload.cleanSession = false) := by
  unfold connectFlags
  cases payload.cleanSession <;> cases payload.username <;> cases payload.password <;>
    simp <;> decide

theorem length_field (h : (utf8 value).length ≤ 65535) : (field value).length ≤ 65537 := by
  rw [field, List.length_append, length_beBytes]
  omega

theorem length_option {value : Option String} (h : ∀ text ∈ value, (utf8 text).length ≤ 65535) :
    (value.elim [] field).length ≤ 65537 := by
  cases value with
  | none => exact Nat.zero_le _
  | some text => exact length_field (h text rfl)

theorem length_connectBody (h : FitsConnect payload) : (connectBody payload).length < 128 ^ 4 := by
  have hid := length_field h.clientId
  have huser := length_option h.username
  have hpass := length_option h.password
  have hmqtt : (field "MQTT").length = 6 := by decide
  simp only [connectBody, List.length_append, length_beBytes, hmqtt, List.length_cons,
    List.length_nil]
  omega

/-- A field of the driver follows exactly when its flag is set. -/
theorem takeFlagged_option {α : Type} {take : Bytes → Option (α × Bytes)} {read : String → α}
    (htake : ∀ text : String, (utf8 text).length ≤ 65535 → ∀ rest,
      take (field text ++ rest) = some (read text, rest))
    {value : Option String} (h : ∀ text ∈ value, (utf8 text).length ≤ 65535) {flags flag : UInt8}
    (hflag : flags &&& flag = 0 ↔ value = none) (rest : Bytes) :
    takeFlagged take flags flag (value.elim [] field ++ rest) = some (value.map read, rest) := by
  unfold takeFlagged
  cases value with
  | none => exact if_pos (hflag.mpr rfl)
  | some text =>
    have hset : ¬(flags &&& flag = 0) := fun hzero => by cases hflag.mp hzero
    rw [if_neg hset, Option.elim_some, htake text (h text rfl)]
    rfl

/-- A CONNECT of the driver is read back, unless there is a password without a user name. -/
theorem readConnect_connectPacket {bytes : Bytes} (h : connectPacket payload = .ok bytes)
    (hkeepAlive : payload.keepAlive < 65536) (hclient : payload.clientId ≠ "")
    (huser : payload.username = none → payload.password = none) :
    readConnect bytes = some
      { cleanSession := payload.cleanSession
        keepAlive := payload.keepAlive
        clientId := payload.clientId
        username := payload.username
        password := payload.password.map utf8 } := by
  obtain ⟨hfits, rfl⟩ := connectPacket_eq_ok h
  obtain ⟨hother, hname, hpass, hclean⟩ := connectFlags_bits payload
  obtain ⟨high, low, hbytes⟩ : ∃ high low, beBytes 2 payload.keepAlive = [high, low] :=
    ⟨_, _, rfl⟩
  have hnumber : readBE [high, low] = payload.keepAlive := by
    rw [← hbytes]
    exact readBE_beBytes hkeepAlive
  have hbody : connectBody payload = field "MQTT" ++
      (4 :: connectFlags payload :: high :: low :: (field payload.clientId ++
        (payload.username.elim [] field ++ (payload.password.elim [] field ++ [])))) := by
    simp [connectBody, hbytes]
  have hfields : takeConnectFields (connectFlags payload) payload.keepAlive
      (field payload.clientId ++ (payload.username.elim [] field ++
        (payload.password.elim [] field ++ []))) = some
      { cleanSession := payload.cleanSession
        keepAlive := payload.keepAlive
        clientId := payload.clientId
        username := payload.username
        password := payload.password.map utf8 } := by
    unfold takeConnectFields
    rw [takeText_field hfits.clientId]
    simp only [Option.bind_eq_bind, Option.bind_some]
    rw [takeFlagged_option (fun _ => takeText_field) hfits.username hname]
    simp only [Option.bind_some]
    rw [takeFlagged_option (fun _ => takeField_field) hfits.password hpass]
    simp only [Option.bind_some]
    rw [if_pos ⟨trivial, Or.inl hclient⟩]
    have hdecide : decide (connectFlags payload &&& cleanFlag ≠ 0) = payload.cleanSession := by
      cases hcase : payload.cleanSession with
      | false => exact decide_eq_false (not_not.mpr (hclean.mpr hcase))
      | true => exact decide_eq_true fun hzero => by rw [hclean.mp hzero] at hcase; cases hcase
    simp [hdecide]
  unfold readConnect
  rw [splitPacket_packet _ (length_connectBody hfits)]
  simp only [Option.bind_eq_bind, Option.bind_some]
  rw [hbody, takeText_field (by decide)]
  simp only [Option.bind_some]
  have huserFlag : connectFlags payload &&& passwordFlag ≠ 0 →
      connectFlags payload &&& userNameFlag ≠ 0 :=
    fun hset hzero => hset (hpass.mpr (huser (hname.mp hzero)))
  rw [if_pos ⟨trivial, trivial, trivial, hother, huserFlag⟩, hnumber, hfields]

end ApiVoy.Drivers.Mqtt
