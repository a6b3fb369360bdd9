/-
# Replies of a pipeline

The driver finds the reply to a command by counting the frames that it reads. A server may
send frames that are no reply, so counting goes wrong when one of them comes in between; and
it may reply with a value that the reader does not know. Apart from that the replies are
those to the commands, and the first setup command that the server refuses ends the run.
-/

import ApiVoy.Drivers.RedisSetup
import ApiVoy.Drivers.RespValues

namespace ApiVoy.Drivers.Redis

open Foundation Domain Engine

/-! ## What a server sends -/

/-- A frame of a server: the reply to a command, or a push that comes on its own. -/
inductive ServerFrame where
  | reply (value : RespValue)
  | push (count : Bytes) (entries : List RespValue)

namespace ServerFrame

def value : ServerFrame → RespValue
  | .reply value => value
  | .push count entries => .aggregate .push count entries

def encode (frame : ServerFrame) : Bytes := frame.value.encode

def reply? : ServerFrame → Option RespValue
  | .reply value => some value
  | .push _ _ => none

end ServerFrame

/-- The replies among the frames, in their order. -/
def replies (frames : List ServerFrame) : List RespValue := frames.filterMap ServerFrame.reply?

/-- The server replies once to every command, and pushes when it likes. -/
structure Conforming (commands : Nat) (frames : List ServerFrame) : Prop where
  wellFormed : ∀ frame ∈ frames, frame.value.WellFormed
  noPush : ∀ count entries, .reply (.aggregate .push count entries) ∉ frames
  answered : (replies frames).length = commands

/-- How many frames there are up to a number of replies. -/
def behind : Nat → List ServerFrame → Nat
  | 0, _ => 0
  | _ + 1, [] => 0
  | n + 1, .push _ _ :: frames => behind (n + 1) frames + 1
  | n + 1, .reply _ :: frames => behind n frames + 1

/-- The first setup command that is answered with an error. -/
def refused (setup : Nat) (frames : List ServerFrame) : Option Nat :=
  ((replies frames).take setup).findIdx? RespValue.isError

/-- The run treats the replies as those to the commands. When the server refuses a setup
command, the run fails with the reply to it; else the response has the replies to the commands
of the user. In both cases the frames behind the last reply that counts are left unread. -/
def Corresponds (codecs : Codecs) (setup commands : Nat) (frames : List ServerFrame)
    (final : Except DriverError ExecutionSummary × Session Connection) : Prop :=
  match refused setup frames with
  | some k =>
    (∃ value json, (replies frames)[k]? = some value ∧ value.decoded codecs = .ok json ∧
      final.1 = .error (setupFailed json)) ∧
    final.2.peer.unread = (frames.drop (behind (k + 1) frames)).flatMap ServerFrame.encode
  | none =>
    (∃ jsons, RespValue.decodedAll codecs ((replies frames).drop setup) = .ok jsons ∧
      (∃ summary, final.1 = .ok summary) ∧
      responseChunk codecs (codecs.pretty (.arr jsons)) ∈ final.2.events) ∧
    final.2.peer.unread =
      (frames.drop (behind (setup + commands) frames)).flatMap ServerFrame.encode

/-- Up to the reply that settles the run there is nothing that the reader does not know. An
error in reply to a setup command is a text, and has no more frames up to it than there are
setup commands; without such an error there is no push up to the last reply. -/
def Matched (setup commands : Nat) (frames : List ServerFrame) : Prop :=
  match refused setup frames with
  | some k =>
    behind (k + 1) frames ≤ setup ∧
    (∀ frame ∈ frames.take (behind (k + 1) frames), frame.value.Supported) ∧
    ∀ value, (replies frames)[k]? = some value → value.IsText
  | none =>
    behind (setup + commands) frames = setup + commands ∧
    ∀ frame ∈ frames.take (setup + commands), frame.value.Supported

/-! ## Frames up to a reply -/

@[simp]
theorem replies_nil : replies [] = [] := rfl

@[simp]
theorem replies_reply (value : RespValue) (frames : List ServerFrame) :
    replies (.reply value :: frames) = value :: replies frames := rfl

@[simp]
theorem replies_push (count : Bytes) (entries : List RespValue) (frames : List ServerFrame) :
    replies (.push count entries :: frames) = replies frames := rfl

theorem replies_append (before after : List ServerFrame) :
    replies (before ++ after) = replies before ++ replies after :=
  List.filterMap_append

theorem behind_zero (frames : List ServerFrame) : behind 0 frames = 0 := by
  rw [behind]

/-- A reply stands behind the frames up to it. -/
theorem behind_split {n : Nat} {frames : List ServerFrame} {value : RespValue}
    (h : (replies frames)[n]? = some value) :
    ∃ before after, frames = before ++ .reply value :: after ∧
      before.length + 1 = behind (n + 1) frames ∧ replies before = (replies frames).take n := by
  induction frames generalizing n with
  | nil => cases h
  | cons frame frames ih =>
    cases frame with
    | push count entries =>
      obtain ⟨before, after, heq, hlength, hreplies⟩ := ih h
      exact ⟨.push count entries :: before, after, by rw [heq, List.cons_append],
        by rw [behind, ← hlength, List.length_cons], hreplies⟩
    | reply first =>
      cases n with
      | zero =>
        cases h
        exact ⟨[], frames, rfl, by rw [behind, behind_zero]; rfl, rfl⟩
      | succ n =>
        obtain ⟨before, after, heq, hlength, hreplies⟩ := ih h
        refine ⟨.reply first :: before, after, by rw [heq, List.cons_append],
          by rw [behind, ← hlength, List.length_cons], ?_⟩
        rw [replies_reply, replies_reply, hreplies, List.take_succ_cons]

/-- Up to a number of replies there are so many replies. -/
theorem replies_take_behind {n : Nat} {frames : List ServerFrame}
    (h : n ≤ (replies frames).length) :
    replies (frames.take (behind n frames)) = (replies frames).take n ∧
      behind n frames ≤ frames.length := by
  cases n with
  | zero =>
    rw [behind_zero]
    exact ⟨rfl, Nat.zero_le _⟩
  | succ n =>
    obtain ⟨value, hvalue⟩ : ∃ value, (replies frames)[n]? = some value :=
      ⟨_, List.getElem?_eq_getElem h⟩
    obtain ⟨before, after, heq, hlength, hreplies⟩ := behind_split hvalue
    have hsplit : frames = (before ++ [.reply value]) ++ after := by
      rw [List.append_assoc, List.singleton_append, ← heq]
    have hcount : (before ++ [ServerFrame.reply value]).length = behind (n + 1) frames := by
      rw [List.length_append, List.length_singleton, hlength]
    have htake : frames.take (behind (n + 1) frames) = before ++ [.reply value] := by
      rw [← hcount]
      conv_lhs => rw [hsplit]
      exact List.take_left
    refine ⟨?_, ?_⟩
    · rw [htake, replies_append, hreplies, replies_reply, replies_nil, List.take_add_one, hvalue]
      rfl
    · have hall := congrArg List.length hsplit
      rw [List.length_append, hcount] at hall
      omega

theorem replies_map_reply (values : List RespValue) :
    replies (values.map .reply) = values := by
  induction values with
  | nil => rfl
  | cons value values ih => rw [List.map_cons, replies_reply, ih]

/-- Frames among which as many are replies as there are frames are all replies. -/
theorem eq_map_reply {frames : List ServerFrame} (h : (replies frames).length = frames.length) :
    frames = (replies frames).map .reply := by
  induction frames with
  | nil => rfl
  | cons frame frames ih =>
    cases frame with
    | reply value =>
      rw [replies_reply, List.length_cons, List.length_cons, Nat.add_right_cancel_iff] at h
      rw [replies_reply, List.map_cons, ← ih h]
    | push count entries =>
      have hle : (replies frames).length ≤ frames.length := List.length_filterMap_le _ _
      rw [replies_push, List.length_cons] at h
      omega

/-! ## What the driver makes of the frames -/

section Observed

variable (codecs : Codecs)

/-- The driver takes the next frames for the replies to the commands of the user. -/
def observedUser : Nat → List ServerFrame → Except DriverError (List Json) × List ServerFrame
  | 0, frames => (.ok [], frames)
  | _ + 1, [] => (.error connectionClosed, [])
  | commands + 1, frame :: frames =>
    match frame.value.decoded codecs with
    | .error e => (.error e, frame :: frames)
    | .ok json =>
      ((observedUser commands frames).1.map (json :: ·), (observedUser commands frames).2)

/-- The driver takes the next frames for the replies to the setup commands, and those behind
them for the replies to the commands of the user. -/
def observed :
    Nat → Nat → List ServerFrame → Except DriverError (List Json) × List ServerFrame
  | 0, commands, frames => observedUser codecs commands frames
  | _ + 1, _, [] => (.error connectionClosed, [])
  | setup + 1, commands, frame :: frames =>
    match frame.value.decoded codecs with
    | .error e => (.error e, frame :: frames)
    | .ok json =>
      if isErrorValue json = true then (.error (setupFailed json), frames)
      else observed setup commands frames

end Observed

section Loop

variable {codecs : Codecs} {frames : List ServerFrame} {session : Session Connection}

/-- The frames are what has still to be parsed. -/
structure Offers (session : Session Connection) (frames : List ServerFrame) : Prop where
  unread : session.peer.unread = frames.flatMap ServerFrame.encode
  flowing : session.peer.Flowing
  wellFormed : ∀ frame ∈ frames, frame.value.WellFormed

theorem readFrame_of_offers (codecs : Codecs) {frame : ServerFrame} (h : Offers session (frame :: frames)) :
    ∃ session', session'.events = session.events ∧
      match frame.value.decoded codecs with
      | .error e => (readFrame codecs).run session = (.error e, session') ∧
          Offers session' (frame :: frames)
      | .ok json => (readFrame codecs).run session = (.ok json, session') ∧
          Offers session' frames := by
  obtain ⟨session', hrun, hunread, hflowing, hevents⟩ := readFrame_of_flowing codecs h.flowing
  have hparse := @RespValue.parseFrame_encode codecs frame.value
    (h.wellFormed frame List.mem_cons_self) (frames.flatMap ServerFrame.encode)
  have hwhole : session.peer.unread = frame.value.encode ++ frames.flatMap ServerFrame.encode := by
    rw [h.unread, List.flatMap_cons, ServerFrame.encode]
  rw [← hwhole] at hparse
  refine ⟨session', hevents, ?_⟩
  cases hdecoded : frame.value.decoded codecs with
  | error e =>
    rw [hparse, hdecoded] at hrun hunread
    exact ⟨hrun, hunread.trans h.unread, hflowing, h.wellFormed⟩
  | ok json =>
    rw [hparse, hdecoded] at hrun hunread
    simp only [Except.map, readOf] at hunread
    rw [hwhole, List.drop_left] at hunread
    exact ⟨hrun, hunread, hflowing, fun frame' hmem =>
      h.wellFormed frame' (List.mem_cons_of_mem frame hmem)⟩

theorem readFrame_of_offers_nil (codecs : Codecs) (h : Offers session []) :
    ∃ session', session'.events = session.events ∧
      (readFrame codecs).run session = (.error connectionClosed, session') ∧
      Offers session' [] := by
  obtain ⟨session', hrun, hunread, hflowing, hevents⟩ := readFrame_of_flowing codecs h.flowing
  have hparse : parseFrame codecs session.peer.unread = .ok none := by
    rw [h.unread]
    rfl
  rw [hparse] at hrun hunread
  exact ⟨session', hevents, hrun, hunread.trans h.unread, hflowing, h.wellFormed⟩

theorem userReplies_of_offers {commands : Nat} (h : Offers session frames) :
    ∃ session', (userReplies codecs commands).run session =
        ((observedUser codecs commands frames).1, session') ∧
      session'.events = session.events ∧
      Offers session' (observedUser codecs commands frames).2 := by
  induction commands generalizing frames session with
  | zero => exact ⟨session, rfl, rfl, h⟩
  | succ commands ih =>
    rw [userReplies, Fallible.run_bind]
    cases frames with
    | nil =>
      obtain ⟨session', hevents, hrun, hoffers⟩ := readFrame_of_offers_nil codecs h
      rw [hrun]
      exact ⟨session', rfl, hevents, hoffers⟩
    | cons frame frames =>
      obtain ⟨session', hevents, hnext⟩ := readFrame_of_offers codecs h
      rw [observedUser]
      cases hdecoded : frame.value.decoded codecs with
      | error e =>
        rw [hdecoded] at hnext
        rw [hnext.1]
        exact ⟨session', rfl, hevents, hnext.2⟩
      | ok json =>
        rw [hdecoded] at hnext
        obtain ⟨final, hrun, hevents', hoffers⟩ := ih hnext.2
        rw [hnext.1]
        simp only [Fallible.run_bind, hrun]
        refine ⟨final, ?_, hevents'.trans hevents, hoffers⟩
        cases (observedUser codecs commands frames).1 <;> rfl

theorem replyLoop_of_offers (codecs : Codecs) (setup commands : Nat)
    (h : Offers session frames) :
    ∃ session', (replyLoop codecs setup commands).run session =
        ((observed codecs setup commands frames).1, session') ∧
      session'.events = session.events ∧
      Offers session' (observed codecs setup commands frames).2 := by
  induction setup generalizing frames session with
  | zero => exact userReplies_of_offers h
  | succ setup ih =>
    rw [replyLoop, Fallible.run_bind]
    cases frames with
    | nil =>
      obtain ⟨session', hevents, hrun, hoffers⟩ := readFrame_of_offers_nil codecs h
      rw [hrun]
      exact ⟨session', rfl, hevents, hoffers⟩
    | cons frame frames =>
      obtain ⟨session', hevents, hnext⟩ := readFrame_of_offers codecs h
      rw [observed]
      cases hdecoded : frame.value.decoded codecs with
      | error e =>
        rw [hdecoded] at hnext
        rw [hnext.1]
        exact ⟨session', rfl, hevents, hnext.2⟩
      | ok json =>
        rw [hdecoded] at hnext
        rw [hnext.1]
        by_cases herror : isErrorValue json = true
        · simp only [herror, if_true]
          exact ⟨session', rfl, hevents, hnext.2⟩
        · obtain ⟨final, hrun, hevents', hoffers⟩ := ih hnext.2
          simp only [herror, Bool.false_eq_true, if_false]
          exact ⟨final, hrun, hevents'.trans hevents, hoffers⟩

end Loop

/-! ## Outcomes -/

section Outcomes

variable {codecs : Codecs} {setup commands : Nat} {frames rest : List ServerFrame}

theorem setupFailed_ne_connectionClosed (json : Json) : setupFailed json ≠ connectionClosed := by
  intro h
  have htext := congrArg String.toList (DriverError.protocol.inj h)
  rw [String.toList_append] at htext
  have htake := congrArg (List.take 7) htext
  rw [List.take_append_of_le_length (by decide)] at htake
  exact absurd htake (by decide)

theorem setupFailed_ne_unsupported (json : Json) (byte : UInt8) :
    setupFailed json ≠ RespValue.unsupported byte := by
  intro h
  have htext := congrArg String.toList (DriverError.protocol.inj h)
  rw [String.toList_append, String.toList_append] at htext
  have htake := congrArg (List.take 7) htext
  rw [List.take_append_of_le_length (by decide), List.take_append_of_le_length (by decide)] at htake
  exact absurd htake (by decide)

variable {frame : ServerFrame}

/-- A frame that is read comes to a value, or it is one that the reader does not know. -/
theorem decoded_frame (codecs : Codecs) (h : frame.value.WellFormed) :
    (∃ json, frame.value.decoded codecs = .ok json) ∨
      ∃ byte, frame.value.decoded codecs = .error (RespValue.unsupported byte) := by
  rcases @RespValue.decoded_cases codecs frame.value h with ⟨_, hok⟩ | ⟨_, herror⟩
  · exact .inl hok
  · exact .inr herror

/-- The driver has taken frames that it knows. -/
def Known (codecs : Codecs) (frames : List ServerFrame) : Prop :=
  ∀ frame ∈ frames, ∃ json, frame.value.decoded codecs = .ok json

/-- The driver has taken frames that are no errors to it. -/
def Passed (codecs : Codecs) (frames : List ServerFrame) : Prop :=
  ∀ frame ∈ frames, ∃ json, frame.value.decoded codecs = .ok json ∧ isErrorValue json = false

theorem observedUser_cases (hwellFormed : ∀ frame ∈ frames, frame.value.WellFormed) :
    (∃ values used, (observedUser codecs commands frames).1 = .ok values ∧
      frames = used ++ (observedUser codecs commands frames).2 ∧ used.length = commands ∧
      Known codecs used) ∨
    (observedUser codecs commands frames).1 = .error connectionClosed ∨
    ∃ byte, (observedUser codecs commands frames).1 = .error (RespValue.unsupported byte) := by
  induction commands generalizing frames with
  | zero => exact .inl ⟨[], [], rfl, rfl, rfl, fun _ hmem => by cases hmem⟩
  | succ commands ih =>
    cases frames with
    | nil => exact .inr (.inl rfl)
    | cons frame frames =>
      rw [observedUser]
      rcases decoded_frame codecs (hwellFormed frame List.mem_cons_self) with
        ⟨json, hjson⟩ | ⟨byte, hbyte⟩
      · rw [hjson]
        rcases ih fun frame' hmem => hwellFormed frame' (List.mem_cons_of_mem frame hmem) with
          ⟨values, used, hvalues, hused, hlength, hknown⟩ | herror | ⟨byte, herror⟩
        · refine .inl ⟨json :: values, frame :: used, by simp only [hvalues]; rfl, ?_, ?_, ?_⟩
          · rw [List.cons_append]
            exact congrArg (frame :: ·) hused
          · rw [List.length_cons, hlength]
          · intro frame' hmem
            rcases List.mem_cons.mp hmem with rfl | hmem
            · exact ⟨json, hjson⟩
            · exact hknown frame' hmem
        · exact .inr (.inl (by simp only [herror]; rfl))
        · exact .inr (.inr ⟨byte, by simp only [herror]; rfl⟩)
      · exact .inr (.inr ⟨byte, by rw [hbyte]⟩)

/-- The loop ends at a reply that it takes for the refusal of a setup command, or with all
replies that it waits for, or at a frame that it cannot read. -/
theorem observed_cases (codecs : Codecs) (setup commands : Nat)
    (hwellFormed : ∀ frame ∈ frames, frame.value.WellFormed) :
    (∃ before frame json, (observed codecs setup commands frames).1 = .error (setupFailed json) ∧
      frames = before ++ frame :: (observed codecs setup commands frames).2 ∧
      before.length < setup ∧ Known codecs before ∧ frame.value.decoded codecs = .ok json ∧
      isErrorValue json = true) ∨
    (∃ values used, (observed codecs setup commands frames).1 = .ok values ∧
      frames = used ++ (observed codecs setup commands frames).2 ∧
      used.length = setup + commands ∧ Known codecs used) ∨
    (observed codecs setup commands frames).1 = .error connectionClosed ∨
    ∃ byte, (observed codecs setup commands frames).1 = .error (RespValue.unsupported byte) := by
  induction setup generalizing frames with
  | zero =>
    rw [Nat.zero_add]
    exact .inr (observedUser_cases hwellFormed)
  | succ setup ih =>
    cases frames with
    | nil => exact .inr (.inr (.inl rfl))
    | cons frame frames =>
      rw [observed]
      rcases decoded_frame codecs (hwellFormed frame List.mem_cons_self) with
        ⟨json, hjson⟩ | ⟨byte, hbyte⟩
      · have hcons : ∀ used, Known codecs used → Known codecs (frame :: used) := by
          intro used hknown frame' hmem
          rcases List.mem_cons.mp hmem with rfl | hmem
          · exact ⟨json, hjson⟩
          · exact hknown frame' hmem
        rw [hjson]
        by_cases herror : isErrorValue json = true
        · simp only [herror, if_true]
          exact .inl ⟨[], frame, json, rfl, rfl, Nat.succ_pos setup,
            fun _ hmem => (by cases hmem), hjson, herror⟩
        · simp only [herror, Bool.false_eq_true, if_false]
          rcases ih fun frame' hmem => hwellFormed frame' (List.mem_cons_of_mem frame hmem) with
            ⟨before, last, failure, hresult, heq, hlength, hknown, hlast, hfailure⟩ |
            ⟨values, used, hvalues, hused, hlength, hknown⟩ | hrest
          · refine .inl ⟨frame :: before, last, failure, hresult, ?_, ?_, hcons before hknown,
              hlast, hfailure⟩
            · rw [List.cons_append]
              exact congrArg (frame :: ·) heq
            · rw [List.length_cons]
              omega
          · refine .inr (.inl ⟨values, frame :: used, hvalues, ?_, ?_, hcons used hknown⟩)
            · rw [List.cons_append]
              exact congrArg (frame :: ·) hused
            · rw [List.length_cons, hlength, Nat.add_right_comm]
          · exact .inr (.inr hrest)
      · exact .inr (.inr (.inr ⟨byte, by rw [hbyte]⟩))

theorem observed_of_refused {before : List ServerFrame} {json : Json}
    (hpassed : Passed codecs before) (hlength : before.length < setup)
    (hjson : frame.value.decoded codecs = .ok json) (herror : isErrorValue json = true) :
    observed codecs setup commands (before ++ frame :: rest) = (.error (setupFailed json), rest) := by
  induction before generalizing setup with
  | nil =>
    cases setup with
    | zero => cases hlength
    | succ setup => simp only [List.nil_append, observed, hjson, herror, if_true]
  | cons first before ih =>
    cases setup with
    | zero => cases hlength
    | succ setup =>
      obtain ⟨value, hvalue, hnot⟩ := hpassed first List.mem_cons_self
      rw [List.length_cons] at hlength
      simp only [List.cons_append, observed, hvalue, hnot, Bool.false_eq_true, if_false]
      exact ih (fun frame' hmem => hpassed frame' (List.mem_cons_of_mem first hmem)) (by omega)

variable {jsons : List Json}

theorem observedUser_of_known {used : List ServerFrame}
    (h : RespValue.decodedAll codecs (used.map ServerFrame.value) = .ok jsons) :
    observedUser codecs used.length (used ++ rest) = (.ok jsons, rest) := by
  induction used generalizing jsons with
  | nil =>
    cases h
    rfl
  | cons frame used ih =>
    rw [List.map_cons, RespValue.decodedAll] at h
    rw [List.length_cons, List.cons_append, observedUser]
    cases hjson : frame.value.decoded codecs with
    | error e => rw [hjson] at h; cases h
    | ok json =>
      rw [hjson] at h
      cases hrest : RespValue.decodedAll codecs (used.map ServerFrame.value) with
      | error e => rw [hrest] at h; cases h
      | ok others =>
        rw [hrest] at h
        cases h
        simp only [ih hrest]
        rfl

theorem observed_of_passed {first used : List ServerFrame} (rest : List ServerFrame)
    (hpassed : Passed codecs first)
    (h : RespValue.decodedAll codecs (used.map ServerFrame.value) = .ok jsons) :
    observed codecs first.length used.length (first ++ (used ++ rest)) = (.ok jsons, rest) := by
  induction first with
  | nil => exact observedUser_of_known h
  | cons frame first ih =>
    obtain ⟨value, hvalue, hnot⟩ := hpassed frame List.mem_cons_self
    simp only [List.length_cons, List.cons_append, observed, hvalue, hnot, Bool.false_eq_true,
      if_false]
    exact ih fun frame' hmem => hpassed frame' (List.mem_cons_of_mem frame hmem)

end Outcomes

/-! ## Correspondence -/

section Correspondence

variable {codecs : Codecs} {setup commands : Nat} {frames : List ServerFrame}

/-- What is left of the stream says how many frames have been taken from it. -/
theorem rest_unique {before rest before' rest' : List ServerFrame}
    (h : before ++ rest = before' ++ rest')
    (hbytes : rest.flatMap ServerFrame.encode = rest'.flatMap ServerFrame.encode) :
    rest = rest' := by
  have hempty : ∀ more : List ServerFrame, more.flatMap ServerFrame.encode = [] → more = [] := by
    intro more hmore
    cases more with
    | nil => rfl
    | cons frame more =>
      rw [List.flatMap_cons, List.append_eq_nil_iff] at hmore
      exact absurd hmore.1 frame.value.encode_ne_nil
  have hsuffix : rest <:+ before' ++ rest' := h ▸ List.suffix_append before rest
  rcases List.suffix_or_suffix_of_suffix hsuffix (List.suffix_append before' rest') with
    ⟨more, hmore⟩ | ⟨more, hmore⟩
  · rw [← hmore, List.flatMap_append] at hbytes
    rw [← hmore, hempty more (List.append_left_eq_self.mp hbytes.symm), List.nil_append]
  · rw [← hmore, List.flatMap_append] at hbytes
    rw [← hmore, hempty more (List.append_left_eq_self.mp hbytes), List.nil_append]

/-- The run ends with what the driver makes of the frames. -/
theorem execute_of_offers (codecs : Codecs) (info : RunInfo) {request : RequestEnvelope}
    {session : Session Connection} {payload : RedisRequest} (hready : Ready codecs request session payload)
    (hoffers : Offers (written session payload) frames) :
    let seen := observed codecs payload.setup.length payload.commands.length frames
    let final := (execute codecs info request).run session
    final.2.peer.unread = seen.2.flatMap ServerFrame.encode ∧
      match seen.1 with
      | .error e => final.1 = .error e
      | .ok responses => (∃ summary, final.1 = .ok summary) ∧
          responseChunk codecs (codecs.pretty (.arr responses)) ∈ final.2.events := by
  obtain ⟨session', hrun, -, hoffers'⟩ := replyLoop_of_offers codecs payload.setup.length
    payload.commands.length hoffers
  rw [execute_of_ready hready, Fallible.run_bind, hrun]
  simp only
  cases (observed codecs payload.setup.length payload.commands.length frames).1 with
  | error e => exact ⟨hoffers'.unread, rfl⟩
  | ok responses =>
    refine ⟨hoffers'.unread, ⟨_, rfl⟩, ?_⟩
    change _ ∈ (session'.events ++ [_]) ++ [_]
    simp

/-- A frame that is known and is neither a refusal nor a push is no error to the driver. -/
theorem passed_of_supported (codecs : Codecs) {before : List ServerFrame}
    (hwellFormed : ∀ frame ∈ before, frame.value.WellFormed)
    (hsupported : ∀ frame ∈ before, frame.value.Supported)
    (hreplies : ∀ value ∈ replies before, value.isError = false) : Passed codecs before := by
  intro frame hmem
  have hcases := @RespValue.decoded_cases codecs frame.value (hwellFormed frame hmem)
  rcases hcases with ⟨_, json, hjson⟩ | ⟨hnot, _⟩
  · refine ⟨json, hjson, ?_⟩
    have hnoError : frame.value.isError = false := by
      cases frame with
      | reply value => exact hreplies value (List.mem_filterMap.mpr ⟨_, hmem, rfl⟩)
      | push count entries => rfl
    by_contra herror
    have hboth := (RespValue.isErrorValue_decoded hjson).mp (by simpa using herror)
    rw [hnoError] at hboth
    cases hboth.1
  · exact absurd (hsupported frame hmem) hnot

theorem supported_of_known {used : List ServerFrame}
    (hwellFormed : ∀ frame ∈ used, frame.value.WellFormed) (hknown : Known codecs used) :
    ∀ frame ∈ used, frame.value.Supported := by
  intro frame hmem
  have hcases := @RespValue.decoded_cases codecs frame.value (hwellFormed frame hmem)
  rcases hcases with ⟨hsupported, _⟩ | ⟨_, byte, hbyte⟩
  · exact hsupported
  · obtain ⟨json, hjson⟩ := hknown frame hmem
    rw [hbyte] at hjson
    cases hjson

/-- The setup command that is refused first, with the frames up to its reply. -/
theorem refused_split {k : Nat} (h : refused setup frames = some k) :
    ∃ before value after, frames = before ++ .reply value :: after ∧
      before.length + 1 = behind (k + 1) frames ∧ (replies frames)[k]? = some value ∧
      value.isError = true ∧ ∀ other ∈ replies before, other.isError = false := by
  obtain ⟨hk, herror, hearlier⟩ := List.findIdx?_eq_some_iff_getElem.mp h
  rw [List.length_take] at hk
  have hlength : k < (replies frames).length := by omega
  have hvalue : (replies frames)[k]? = some (replies frames)[k] := List.getElem?_eq_getElem hlength
  obtain ⟨before, after, heq, hbehind, hreplies⟩ := behind_split hvalue
  refine ⟨before, _, after, heq, hbehind, hvalue, by simpa using herror, ?_⟩
  intro other hmem
  rw [hreplies] at hmem
  obtain ⟨i, hi, rfl⟩ := List.mem_iff_getElem.mp hmem
  rw [List.length_take] at hi
  have hnot := hearlier i (by omega)
  simpa using hnot

theorem drop_behind {before after : List ServerFrame} {value : RespValue} {position : Nat}
    (heq : frames = before ++ .reply value :: after) (hposition : before.length + 1 = position) :
    frames.drop position = after ∧ frames.take position = before ++ [.reply value] := by
  have hsplit : frames = (before ++ [.reply value]) ++ after := by
    rw [List.append_assoc, List.singleton_append, ← heq]
  have hlength : (before ++ [ServerFrame.reply value]).length = position := by
    rw [List.length_append, List.length_singleton, hposition]
  rw [hsplit, ← hlength]
  exact ⟨List.drop_left, List.take_left⟩

variable {info : RunInfo} {request : RequestEnvelope} {session : Session Connection}
  {payload : RedisRequest}

theorem correspond_of_refused (hready : Ready codecs request session payload)
    (hoffers : Offers (written session payload) frames) {k : Nat}
    (hrefused : refused payload.setup.length frames = some k) :
    Corresponds codecs payload.setup.length payload.commands.length frames
        ((execute codecs info request).run session) ↔
      Matched payload.setup.length payload.commands.length frames := by
  obtain ⟨before, value, after, heq, hbehind, hvalue, herror, hearlier⟩ := refused_split hrefused
  have ⟨hdrop, htake⟩ := drop_behind heq hbehind
  have ⟨hunread, hfinal⟩ := execute_of_offers codecs info hready hoffers
  have hwellFormed := hoffers.wellFormed
  rw [Corresponds, Matched, hrefused]
  simp only [hdrop, htake, hunread]
  constructor
  · rintro ⟨⟨_, json, _, _, hresult⟩, hrest⟩
    rcases observed_cases codecs payload.setup.length payload.commands.length hwellFormed with
      ⟨before', frame', json', -, heq', hlength, hknown, hjson', herror'⟩ |
      ⟨values, used, hseen, -⟩ | hseen | ⟨byte, hseen⟩
    · have hsame : (before' ++ [frame']) ++ (observed codecs payload.setup.length
          payload.commands.length frames).2 = (before ++ [.reply value]) ++ after := by
        rw [List.append_assoc, List.append_assoc]
        exact heq'.symm.trans heq
      rw [rest_unique hsame hrest] at hsame
      have ⟨hbefore, hframe⟩ := List.append_inj' (List.append_cancel_right hsame) rfl
      cases List.singleton_inj.mp hframe
      have hknown' : Known codecs (before ++ [.reply value]) := by
        intro frame hmem
        rw [← hbefore] at hmem
        rcases List.mem_append.mp hmem with hmem | hmem
        · exact hknown frame hmem
        · rw [List.mem_singleton.mp hmem]
          exact ⟨json', hjson'⟩
      refine ⟨?_, supported_of_known (fun frame hmem => hwellFormed frame ?_) hknown', ?_⟩
      · rw [← hbehind, ← hbefore]
        exact hlength
      · rw [heq, ← List.singleton_append, ← List.append_assoc]
        exact List.mem_append_left after hmem
      · intro other hother
        rw [hvalue] at hother
        cases hother
        exact ((RespValue.isErrorValue_decoded hjson').mp herror').2
    · simp only [hseen, hresult] at hfinal
      obtain ⟨⟨_, hok⟩, -⟩ := hfinal
      cases hok
    · simp only [hseen, hresult] at hfinal
      exact absurd (Except.error.inj hfinal) (setupFailed_ne_connectionClosed json)
    · simp only [hseen, hresult] at hfinal
      exact absurd (Except.error.inj hfinal) (setupFailed_ne_unsupported json byte)
  · rintro ⟨hlength, hsupported, htext⟩
    have hbefore : ∀ frame ∈ before, frame ∈ frames := fun frame hmem => by
      rw [heq]
      exact List.mem_append_left _ hmem
    have hpassed := passed_of_supported codecs
      (fun frame hmem => hwellFormed frame (hbefore frame hmem))
      (fun frame hmem => hsupported frame (List.mem_append_left _ hmem)) hearlier
    have hreply : ServerFrame.reply value ∈ frames := by
      rw [heq]
      exact List.mem_append_right before List.mem_cons_self
    have hknown := hsupported (.reply value) (List.mem_append_right before List.mem_cons_self)
    rcases @RespValue.decoded_cases codecs value (hwellFormed _ hreply) with
      ⟨-, json, hjson⟩ | ⟨hnot, -⟩
    · have hseen : observed codecs payload.setup.length payload.commands.length frames =
          (.error (setupFailed json), after) := by
        conv_lhs => rw [heq]
        exact observed_of_refused hpassed (by omega) hjson
          ((RespValue.isErrorValue_decoded hjson).mpr ⟨herror, htext value hvalue⟩)
      rw [hseen] at hfinal ⊢
      exact ⟨⟨value, json, hvalue, hjson, hfinal⟩, rfl⟩
    · exact absurd hknown hnot

/-- When no setup command is refused, the replies are all frames that are read. -/
theorem correspond_of_accepted (hready : Ready codecs request session payload)
    (hoffers : Offers (written session payload) frames)
    (hconforming : Conforming (payload.setup.length + payload.commands.length) frames)
    (hrefused : refused payload.setup.length frames = none) :
    Corresponds codecs payload.setup.length payload.commands.length frames
        ((execute codecs info request).run session) ↔
      Matched payload.setup.length payload.commands.length frames := by
  have ⟨hunread, hfinal⟩ := execute_of_offers codecs info hready hoffers
  have hwellFormed := hoffers.wellFormed
  have hanswered := hconforming.answered
  have ⟨hreplies, hshort⟩ := replies_take_behind (Nat.le_of_eq hanswered.symm)
  rw [Corresponds, Matched, hrefused]
  simp only [hunread]
  constructor
  · rintro ⟨⟨_, _, ⟨_, hresult⟩, _⟩, hrest⟩
    rcases observed_cases codecs payload.setup.length payload.commands.length hwellFormed with
      ⟨_, _, json', hseen, -⟩ | ⟨values, used, -, heq, hlength, hknown⟩ | hseen | ⟨byte, hseen⟩
    · simp only [hseen, hresult] at hfinal
      cases hfinal
    · have hsame : used ++ (observed codecs payload.setup.length
          payload.commands.length frames).2 =
          frames.take (behind (payload.setup.length + payload.commands.length) frames) ++
            frames.drop (behind (payload.setup.length + payload.commands.length) frames) := by
        rw [List.take_append_drop, ← heq]
      rw [rest_unique hsame hrest] at hsame
      have hused := List.append_cancel_right hsame
      have hcount := congrArg List.length hused
      rw [List.length_take, hlength, Nat.min_eq_left hshort] at hcount
      refine ⟨hcount.symm, ?_⟩
      rw [hcount, ← hused]
      refine supported_of_known (fun frame hmem => hwellFormed frame ?_) hknown
      rw [heq]
      exact List.mem_append_left _ hmem
    · simp only [hseen, hresult] at hfinal
      cases hfinal
    · simp only [hseen, hresult] at hfinal
      cases hfinal
  · rintro ⟨hbehind, hsupported⟩
    rw [hbehind] at hreplies hshort ⊢
    have hall : (replies frames).take (payload.setup.length + payload.commands.length) =
        replies frames := by
      rw [← hanswered, List.take_length]
    rw [hall] at hreplies
    have htake : frames.take (payload.setup.length + payload.commands.length) =
        (replies frames).map .reply := by
      have hcount : (replies (frames.take (payload.setup.length + payload.commands.length))).length =
          (frames.take (payload.setup.length + payload.commands.length)).length := by
        rw [hreplies, hanswered, List.length_take, Nat.min_eq_left hshort]
      rw [eq_map_reply hcount, hreplies]
    have hsplit : frames = ((replies frames).take payload.setup.length).map .reply ++
        (((replies frames).drop payload.setup.length).map .reply ++
          frames.drop (payload.setup.length + payload.commands.length)) := by
      rw [← List.append_assoc, ← List.map_append, List.take_append_drop, ← htake,
        List.take_append_drop]
    have hmem : ∀ value ∈ replies frames, ServerFrame.reply value ∈
        frames.take (payload.setup.length + payload.commands.length) := fun value hvalue => by
      rw [htake]
      exact List.mem_map_of_mem hvalue
    have hwritten : ∀ frame ∈ frames.take (payload.setup.length + payload.commands.length),
        frame.value.WellFormed := fun frame hframe => hwellFormed frame (List.mem_of_mem_take hframe)
    have hpassed : Passed codecs (((replies frames).take payload.setup.length).map .reply) := by
      have hfirst : ∀ frame ∈ ((replies frames).take payload.setup.length).map .reply,
          frame ∈ frames.take (payload.setup.length + payload.commands.length) := by
        intro frame hframe
        obtain ⟨value, hvalue, rfl⟩ := List.mem_map.mp hframe
        exact hmem value (List.mem_of_mem_take hvalue)
      refine passed_of_supported codecs (fun frame hframe => hwritten frame (hfirst frame hframe))
        (fun frame hframe => hsupported frame (hfirst frame hframe)) ?_
      intro value hvalue
      rw [replies_map_reply] at hvalue
      have hnot := List.findIdx?_eq_none_iff.mp hrefused value hvalue
      simpa using hnot
    have hvalues : (((replies frames).drop payload.setup.length).map ServerFrame.reply).map
        ServerFrame.value = (replies frames).drop payload.setup.length := by
      rw [List.map_map]
      exact List.map_id _
    have hrest : ∀ value ∈ (replies frames).drop payload.setup.length,
        ServerFrame.reply value ∈
          frames.take (payload.setup.length + payload.commands.length) :=
      fun value hvalue => hmem value (List.mem_of_mem_drop hvalue)
    rcases @RespValue.decodedAll_cases codecs _ (RespValue.allWellFormed_iff.mpr
      fun value hvalue => hwritten _ (hrest value hvalue)) with ⟨-, jsons, hjsons⟩ | ⟨hnot, -⟩
    · have hseen := observed_of_passed (frames.drop (payload.setup.length +
        payload.commands.length)) hpassed (hvalues.symm ▸ hjsons)
      have hsetup : payload.setup.length ≤ (replies frames).length := by omega
      rw [← hsplit, List.length_map, List.length_map, List.length_take, List.length_drop,
        Nat.min_eq_left hsetup, hanswered, Nat.add_sub_cancel_left] at hseen
      rw [hseen] at hfinal ⊢
      exact ⟨⟨jsons, hjsons, hfinal.1, hfinal.2⟩, rfl⟩
    · exact absurd (RespValue.allSupported_iff.mpr
        fun value hvalue => hsupported _ (hrest value hvalue)) hnot

/-- What the peer sends is offered behind the write. -/
theorem offers_written {reads : List Bytes} (hreads : ∀ bytes ∈ reads, bytes ≠ [])
    (hstream : reads.flatten = frames.flatMap ServerFrame.encode)
    (hlimit : reads.flatten.length ≤ maxBuffered) (hfeeds : session.peer.Feeds reads)
    (hwellFormed : ∀ frame ∈ frames, frame.value.WellFormed) :
    Offers (written session payload) frames := by
  have hwritten : (written session payload).peer.Feeds reads := by
    refine ⟨hfeeds.1, ?_⟩
    change (Socket.send _ session.peer.socket).2.arrivals = _
    rw [Socket.send]
    split <;> exact hfeeds.2
  exact ⟨by rw [hwritten.unread, hstream], hwritten.flowing hreads hlimit, hwellFormed⟩

/-- The replies are those to the commands exactly when nothing comes in between that counts as
a reply, and nothing that the driver does not know or takes for a success. -/
theorem replies_correspond (codecs : Codecs) (info : RunInfo) (request : RequestEnvelope)
    (session : Session Connection) (payload : RedisRequest) (frames : List ServerFrame)
    (reads : List Bytes) (hready : Ready codecs request session payload)
    (hconforming : Conforming (payload.setup.length + payload.commands.length) frames)
    (hreads : ∀ bytes ∈ reads, bytes ≠ [])
    (hstream : reads.flatten = frames.flatMap ServerFrame.encode)
    (hlimit : reads.flatten.length ≤ maxBuffered) (hfeeds : session.peer.Feeds reads) :
    Corresponds codecs payload.setup.length payload.commands.length frames
        ((execute codecs info request).run session) ↔
      Matched payload.setup.length payload.commands.length frames := by
  have hoffers : Offers (written session payload) frames :=
    offers_written hreads hstream hlimit hfeeds hconforming.wellFormed
  cases hrefused : refused payload.setup.length frames with
  | some k => exact correspond_of_refused hready hoffers hrefused
  | none => exact correspond_of_accepted hready hoffers hconforming hrefused

/-! ## The setup commands -/

/-- The text of an error. -/
def errorText : RespValue → String
  | .line _ text => String.ofList (decodeLossy text)
  | .bulk _ _ bytes => (fromUtf8 bytes).getD ""
  | _ => ""

theorem setupFailed_decoded {value : RespValue} {json : Json} (herror : value.isError = true)
    (htext : value.IsText) (h : value.decoded codecs = .ok json) :
    setupFailed json = .protocol ("Redis setup failed: " ++ errorText value) := by
  cases value with
  | line kind text =>
    cases of_decide_eq_true herror
    cases h
    rfl
  | bulk kind length bytes =>
    cases of_decide_eq_true herror
    obtain ⟨text, hbytes⟩ := Option.isSome_iff_exists.mp htext
    rw [RespValue.decoded, bulkValue, hbytes] at h
    cases h
    rw [errorText, hbytes]
    rfl
  | absent | aggregate => cases herror
  | attributed => cases h

/-- When all replies are there, the first ones are no errors to the driver. -/
theorem passed_of_observed {values : List Json}
    (h : (observed codecs setup commands frames).1 = .ok values) :
    setup ≤ frames.length ∧ Passed codecs (frames.take setup) := by
  induction setup generalizing frames with
  | zero => exact ⟨Nat.zero_le _, by rintro _ ⟨⟩⟩
  | succ setup ih =>
    cases frames with
    | nil => cases h
    | cons frame frames =>
      rw [observed] at h
      cases hjson : frame.value.decoded codecs with
      | error e => rw [hjson] at h; cases h
      | ok json =>
        rw [hjson] at h
        cases herror : isErrorValue json with
        | true => simp only [herror, if_true] at h; cases h
        | false =>
          simp only [herror, Bool.false_eq_true, if_false] at h
          obtain ⟨hlength, hpassed⟩ := ih h
          exact ⟨Nat.succ_le_succ hlength, List.forall_mem_cons.mpr ⟨⟨json, hjson, herror⟩, hpassed⟩⟩

theorem not_text_of_passed (hpassed : Passed codecs frames) :
    ∀ frame ∈ frames, frame.value.isError = true → ¬frame.value.IsText := by
  intro frame hmem herror htext
  obtain ⟨json, hjson, hnot⟩ := hpassed frame hmem
  rw [(RespValue.isErrorValue_decoded hjson).mpr ⟨herror, htext⟩] at hnot
  cases hnot

theorem passed_of_not_text (codecs : Codecs) (hwellFormed : ∀ frame ∈ frames, frame.value.WellFormed)
    (h : ∀ frame ∈ frames, frame.value.Supported ∧
      (frame.value.isError = true → ¬frame.value.IsText)) : Passed codecs frames := by
  intro frame hmem
  rcases @RespValue.decoded_cases codecs frame.value (hwellFormed frame hmem) with
    ⟨-, json, hjson⟩ | ⟨hnot, -⟩
  · refine ⟨json, hjson, Bool.eq_false_iff.mpr fun herror => ?_⟩
    obtain ⟨hisError, htext⟩ := (RespValue.isErrorValue_decoded hjson).mp herror
    exact (h frame hmem).2 hisError htext
  · exact absurd (h frame hmem).1 hnot

/-- The commands go out in one write, those for the setup first, and before anything is read.
A response is only reported when all setup replies have come and none of them is an error that
is a text; the first one that is ends the run. -/
theorem setup_gate (codecs : Codecs) (info : RunInfo) (request : RequestEnvelope)
    (session : Session Connection) (hevents : session.events = [])
    (htraffic : session.peer.socket.traffic = []) :
    let final := (execute codecs info request).run session
    let responds := Reports final.2.events ∨ ∃ summary, final.1 = .ok summary
    (final.2.peer.socket.traffic = [] ∨ ∃ payload part, ∃ pieces : List Bytes,
      decodeRequest codecs request = .ok payload ∧
      part <+: outgoing payload.setup ++ outgoing payload.commands ∧
      final.2.peer.socket.traffic = .sent part :: pieces.map .received) ∧
    (responds → ∃ payload, Ready codecs request session payload ∧ Accepted codecs session payload) ∧
    (∀ payload before text after, Ready codecs request session payload →
      (setupReplies codecs session payload).values =
        before ++ .obj [("type", .str "error"), ("value", .str text)] :: after →
      (∀ value ∈ before, value.get "type" ≠ some (.str "error")) →
      final.1 = .error (.protocol ("Redis setup failed: " ++ text))) ∧
    ∀ payload frames reads, Ready codecs request session payload → (∀ bytes ∈ reads, bytes ≠ []) →
      reads.flatten = frames.flatMap ServerFrame.encode → reads.flatten.length ≤ maxBuffered →
      session.peer.Feeds reads → (∀ frame ∈ frames, frame.value.WellFormed) →
      (responds → payload.setup.length ≤ frames.length ∧
        ∀ frame ∈ frames.take payload.setup.length,
          frame.value.isError = true → ¬frame.value.IsText) ∧
      ∀ before frame after, frames = before ++ frame :: after →
        before.length < payload.setup.length →
        (∀ earlier ∈ before, earlier.value.Supported ∧
          (earlier.value.isError = true → ¬earlier.value.IsText)) →
        frame.value.isError = true → frame.value.IsText → frame.value.Supported →
        final.1 = .error (.protocol ("Redis setup failed: " ++ errorText frame.value)) := by
  intro final responds
  have ⟨hwritten, hresponds⟩ := response_gated codecs info request session hevents htraffic
  refine ⟨hwritten, hresponds, fun payload before text after hready hvalues hbefore =>
    refusal_ends_run hready hvalues hbefore, ?_⟩
  intro payload frames reads hready hreads hstream hlimit hfeeds hwellFormed
  obtain ⟨-, hfinal⟩ := execute_of_offers codecs info hready
    (offers_written hreads hstream hlimit hfeeds hwellFormed)
  constructor
  · intro hreports
    obtain ⟨summary, hok⟩ : ∃ summary, final.1 = .ok summary :=
      hreports.elim (ok_of_reports hevents hready) id
    cases hseen : (observed codecs payload.setup.length payload.commands.length frames).1 with
    | error e =>
      rw [hseen] at hfinal
      exact absurd (hok.symm.trans hfinal) (by simp)
    | ok responses =>
      obtain ⟨hlength, hpassed⟩ := passed_of_observed hseen
      exact ⟨hlength, not_text_of_passed hpassed⟩
  · intro before frame after heq hlength hbefore herror htext hsupported
    have hmem : ∀ earlier ∈ before, earlier ∈ frames := fun earlier hmem =>
      heq ▸ List.mem_append_left _ hmem
    have hframe : frame ∈ frames := heq ▸ List.mem_append_right before List.mem_cons_self
    have hpassed := passed_of_not_text codecs (fun earlier h => hwellFormed earlier (hmem earlier h))
      hbefore
    rcases @RespValue.decoded_cases codecs frame.value (hwellFormed frame hframe) with
      ⟨-, json, hjson⟩ | ⟨hnot, -⟩
    · have hseen := @observed_of_refused codecs payload.setup.length payload.commands.length after
        frame before json hpassed hlength hjson
        ((RespValue.isErrorValue_decoded hjson).mpr ⟨herror, htext⟩)
      rw [heq, hseen] at hfinal
      exact hfinal.trans (by rw [setupFailed_decoded herror htext hjson])
    · exact absurd hsupported hnot

end Correspondence

/-- A server that refuses the password. -/
theorem setup_gate_rejecting :
    ((execute Codecs.unused flushRun flushRequest).run rejecting).1 =
      .error (.protocol "Redis setup failed: WRONGPASS") := by
  have htext : errorText (.line .error (utf8 "WRONGPASS")) = "WRONGPASS" := by decide +kernel
  have hgate := (setup_gate Codecs.unused flushRun flushRequest rejecting rfl rfl).2.2.2 flushPayload
    [.reply (.line .error (utf8 "WRONGPASS"))] [utf8 "-WRONGPASS\r\n"] ready_flushRequest
    (by decide) (by decide) (by decide) ⟨rfl, rfl⟩ (by
      intro frame hmem
      rw [List.mem_singleton.mp hmem]
      exact ⟨⟨by decide, by decide⟩, trivial⟩)
  have hfinal := hgate.2 [] _ [] rfl (by decide) (by rintro _ ⟨⟩) rfl trivial (by rintro ⟨⟩)
  rw [ServerFrame.value, htext] at hfinal
  exact hfinal

/-! ## A push before a reply -/

def getRequest : RequestEnvelope :=
  { RequestEnvelope.httpGet "get" "2026-01-01T00:00:00Z" "Get" "redis://cache" with
    protocolId := "redis"
    payload := .raw (.obj [("commands", .arr [.arr [.str "GET", .str "key"]])]) }

def getPayload : RedisRequest := ⟨none, none, none, [["GET", "key"]]⟩

/-- The server tells that a key has become invalid. -/
def invalidation : ServerFrame := .push (utf8 "1") [.line .string (utf8 "invalidate")]

def okReply : ServerFrame := .reply (.line .string (utf8 "OK"))

/-- A session in which the frames come in one piece. -/
def offering (frames : List ServerFrame) : Session Connection :=
  ⟨⟨⟨.ok (), [], [.data (frames.flatMap ServerFrame.encode)], []⟩, []⟩, []⟩

theorem ready_getRequest (frames : List ServerFrame) :
    Ready Codecs.unused getRequest (offering frames) getPayload where
  decoded := by rfl
  addressed := ⟨"cache:6379", by rfl⟩
  connected := rfl
  sent := rfl

theorem conforming_invalidation {frames : List ServerFrame}
    (h : ∀ frame ∈ frames, frame = invalidation ∨ frame = okReply)
    (hanswered : (replies frames).length = 1) : Conforming 1 frames where
  wellFormed := by
    intro frame hmem
    rcases h frame hmem with rfl | rfl
    · exact ⟨⟨1, ⟨by decide, by decide⟩, rfl⟩, ⟨⟨by decide, by decide⟩, trivial⟩, trivial⟩
    · exact ⟨⟨by decide, by decide⟩, trivial⟩
  noPush := by
    intro count entries hmem
    rcases h _ hmem with heq | heq <;> cases heq
  answered := hanswered

/-- A push is taken for the reply to the command. -/
theorem not_correspond_of_push : ¬∀ (codecs : Codecs) (info : RunInfo) (request : RequestEnvelope)
    (session : Session Connection) (payload : RedisRequest) (frames : List ServerFrame)
    (reads : List Bytes), Ready codecs request session payload →
    Conforming (payload.setup.length + payload.commands.length) frames →
    (∀ bytes ∈ reads, bytes ≠ []) → reads.flatten = frames.flatMap ServerFrame.encode →
    reads.flatten.length ≤ maxBuffered → session.peer.Feeds reads →
      Corresponds codecs payload.setup.length payload.commands.length frames
        ((execute codecs info request).run session) := by
  intro h
  have hready := ready_getRequest [invalidation, okReply]
  have hconforming : Conforming 1 [invalidation, okReply] :=
    conforming_invalidation (by simp) rfl
  have hcorresponds := h Codecs.unused flushRun getRequest (offering [invalidation, okReply])
    getPayload [invalidation, okReply] [[invalidation, okReply].flatMap ServerFrame.encode] hready
    hconforming (by decide) (List.append_nil _) (by decide) ⟨rfl, rfl⟩
  have hfeeds : (offering [invalidation, okReply]).peer.Feeds
      [[invalidation, okReply].flatMap ServerFrame.encode] := ⟨rfl, rfl⟩
  have hoffers : Offers (written (offering [invalidation, okReply]) getPayload)
      [invalidation, okReply] :=
    offers_written (by decide) (List.append_nil _) (by decide) hfeeds hconforming.wellFormed
  have hmatched := (correspond_of_accepted hready hoffers hconforming rfl).mp hcorresponds
  exact absurd hmatched.1 (by decide)

theorem replies_correspond_push_behind :
    Corresponds Codecs.unused 0 1 [okReply, invalidation]
      ((execute Codecs.unused flushRun getRequest).run (offering [okReply, invalidation])) :=
  (replies_correspond Codecs.unused flushRun getRequest (offering [okReply, invalidation])
    getPayload [okReply, invalidation] [[okReply, invalidation].flatMap ServerFrame.encode]
    (ready_getRequest _) (conforming_invalidation (by simp) rfl) (by decide) (List.append_nil _)
    (by decide) ⟨rfl, rfl⟩).mpr ⟨by decide, by
      intro frame hmem
      rw [List.mem_singleton.mp hmem]
      exact nofun⟩

end ApiVoy.Drivers.Redis
