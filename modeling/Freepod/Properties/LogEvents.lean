import Freepod.Base.JsonRoundTrip
import Freepod.Base.Lists
import Freepod.Cli.LogEvents

/-!
# Log events survive the wire

* `Message.Sound`: a name and an id without line breaks, and a JSON object without floats.
* `wire_eq`: a stream of such messages is whole lines without breaks.
* `events_survive`: however it is split into lines, the client reads the events and nothing else.
* `id_with_break`: an id with a line break in it is read as more fields.
-/

namespace Freepod.LogEvents

open Base Base.JsonText

/-! ## what is written -/

/-- a text within one line, for every reader -/
def OneLine (l : List Char) : Prop := ∀ c ∈ l, textBreaks.isBreak c = false

instance : DecidablePred OneLine := fun l => List.decidableBAll _ l

/-- a name and an id without line breaks, and data that is a JSON object without floats -/
def Message.Sound : Message → Prop
  | .event name data id =>
    OneLine name ∧ (∀ i ∈ id, OneLine i) ∧ Plain (.obj data) ∧ tooLong (.obj data) = false
  | .keepalive => True

/-- the lines a message is written as -/
def Message.lines : Message → List (List Char)
  | .event name data id =>
    id.toList.map (fieldLine ['i', 'd']) ++
      [fieldLine ['e', 'v', 'e', 'n', 't'] name,
        fieldLine ['d', 'a', 't', 'a'] (JsonText.encode (.obj data)), []]
  | .keepalive => [": keepalive".toList, []]

/-- what the client is to make of it -/
def Message.events : Message → List Event
  | .event name data _ => [⟨name, .obj data⟩]
  | .keepalive => []

theorem isBreak_of_printable {c : Char} (h : Printable c) : textBreaks.isBreak c = false := by
  obtain ⟨hlo, hhi⟩ := h
  apply decide_eq_false
  omega

theorem oneLine_encode {v : JsonText.Value} (h : Plain v) : OneLine (JsonText.encode v) :=
  fun c hc => isBreak_of_printable (printable_encode v h c hc)

theorem OneLine.fieldLine {field value : List Char} (hf : OneLine field) (hv : OneLine value) :
    OneLine (fieldLine field value) := by
  intro c hc
  obtain hc | hc := List.mem_append.mp hc
  · exact hf c hc
  · simp only [List.mem_cons] at hc
    rcases hc with rfl | rfl | hc
    · decide
    · decide
    · exact hv c hc

theorem Message.oneLine_of_mem {m : Message} (h : m.Sound) {l : List Char} (hl : l ∈ m.lines) :
    OneLine l := by
  cases m with
  | keepalive =>
    have hall : ∀ l ∈ [": keepalive".toList, []], OneLine l := by decide
    exact hall l hl
  | event name data id =>
    obtain ⟨hname, hid, hdata, -⟩ := h
    simp only [Message.lines, List.mem_append, List.mem_map, List.mem_cons, List.not_mem_nil,
      or_false, Option.mem_toList] at hl
    rcases hl with ⟨i, hi, rfl⟩ | rfl | rfl | rfl
    · exact OneLine.fieldLine (by decide) (hid i hi)
    · exact OneLine.fieldLine (by decide) hname
    · exact OneLine.fieldLine (by decide) (oneLine_encode hdata)
    · intro c hc
      cases hc

theorem intercalate_newline (l : List Char) (ls : List (List Char)) :
    ['\n'].intercalate (l :: ls) ++ ['\n'] = (l :: ls).flatMap (· ++ ['\n']) := by
  induction ls generalizing l with
  | nil => simp [List.intercalate]
  | cons l' ls ih =>
    have h := ih l'
    simp only [List.intercalate, List.intersperse_cons_cons, List.flatten_cons, List.append_assoc] at h ⊢
    rw [h]
    simp

theorem Message.text_eq {m : Message} (h : m.Sound) :
    m.text = some (m.lines.flatMap (· ++ ['\n'])) := by
  cases m with
  | keepalive => rfl
  | event name data id =>
    obtain ⟨-, -, -, ht⟩ := h
    have hd : dumps (.obj data) = some (JsonText.encode (.obj data)) := by
      rw [dumps, ht]
      rfl
    have hsplit : ∀ l : List Char, l ++ ['\n', '\n'] = l ++ ['\n'] ++ ['\n'] := fun l => by simp
    rw [Message.text, sse, hd]
    show some (['\n'].intercalate _ ++ ['\n', '\n']) = _
    rw [hsplit]
    cases id with
    | none =>
      show some (['\n'].intercalate (_ :: _) ++ ['\n'] ++ ['\n']) = _
      rw [intercalate_newline]
      simp [Message.lines]
    | some i =>
      show some (['\n'].intercalate (_ :: _) ++ ['\n'] ++ ['\n']) = _
      rw [intercalate_newline]
      simp [Message.lines]

/-- **a stream is whole lines** -/
theorem wire_eq {messages : List Message} (h : ∀ m ∈ messages, m.Sound) :
    wire messages = some ((messages.flatMap Message.lines).flatMap (· ++ ['\n'])) := by
  have hmap : messages.mapM Message.text =
      some (messages.map fun m => m.lines.flatMap (· ++ ['\n'])) := by
    induction messages with
    | nil => rfl
    | cons m messages ih =>
      have hrest := ih fun m hm => h m (List.mem_cons_of_mem _ hm)
      rw [List.mapM_cons, Message.text_eq (h m List.mem_cons_self), hrest]
      rfl
  unfold wire
  rw [hmap, List.flatMap_assoc]
  rfl

/-! ## what is read -/

theorem rdropWhile_cr {l : List Char} (h : OneLine l) : l.rdropWhile (· = '\r') = l := by
  rw [List.rdropWhile_eq_self_iff]
  intro hl hc
  have hb := h _ (List.getLast_mem hl)
  rw [of_decide_eq_true hc] at hb
  cases hb

/-- a field is read as its name and its value -/
theorem parseLine_fieldLine {s : ParseState} {field value : List Char}
    (hl : OneLine (fieldLine field value)) (hf : ∀ c ∈ field, c ≠ ':') (hne : field ≠ []) :
    parseLine s (fieldLine field value) = .ok
      (if field = ['e', 'v', 'e', 'n', 't'] then { s with eventName := value }
        else if field = ['d', 'a', 't', 'a'] then { s with dataParts := s.dataParts ++ [value] }
        else s, none) := by
  have htake : (fieldLine field value).takeWhile (· ≠ ':') = field := by
    unfold fieldLine
    rw [List.takeWhile_append_of_pos fun c hc => decide_eq_true (hf c hc)]
    simp
  have hdrop : ((fieldLine field value).dropWhile (· ≠ ':')).drop 1 = ' ' :: value := by
    unfold fieldLine
    rw [List.dropWhile_append_of_pos fun c hc => decide_eq_true (hf c hc)]
    simp
  have hhead : (fieldLine field value).head? ≠ some ':' := by
    cases field with
    | nil => exact absurd rfl hne
    | cons c field => exact fun h => hf c List.mem_cons_self (Option.some.inj h)
  have hnil : fieldLine field value ≠ [] := by simp [fieldLine]
  unfold parseLine
  simp only [rdropWhile_cr hl, if_neg hhead, if_neg hnil, htake, hdrop, List.head?_cons, if_true,
    List.drop_one, List.tail_cons]
  split
  · rfl
  · split <;> rfl

theorem parseFrom_cons {s s' : ParseState} {line : List Char} {event : Option Event}
    (h : parseLine s line = .ok (s', event)) (lines : List (List Char)) :
    parseFrom s (line :: lines) =
      (event.toList ++ (parseFrom s' lines).1, (parseFrom s' lines).2) := by
  rw [parseFrom, h]

theorem parseLine_blank {name payload : List Char} {v : JsonText.Value} (h : loads payload = some v) :
    parseLine ⟨name, [payload]⟩ [] = .ok (.init, some ⟨name, v⟩) := by
  have hp : ['\n'].intercalate [payload] = payload := by simp [List.intercalate]
  unfold parseLine
  simp only [List.rdropWhile_nil, List.head?_nil, hp, h]
  rfl

/-- **a message is read as its events** -/
theorem parseFrom_message {m : Message} (h : m.Sound) (lines : List (List Char)) :
    parseFrom .init (m.lines ++ lines) =
      (m.events ++ (parseFrom .init lines).1, (parseFrom .init lines).2) := by
  cases m with
  | keepalive => rfl
  | event name data id =>
    have hl := fun l hl => Message.oneLine_of_mem h (l := l) hl
    obtain ⟨-, -, hplain, ht⟩ := h
    have hload := loads_encode hplain ht
    have hname : parseLine .init (fieldLine ['e', 'v', 'e', 'n', 't'] name) =
        .ok (⟨name, []⟩, none) :=
      parseLine_fieldLine (hl _ (by simp [Message.lines])) (forall_mem_of_all (by decide)) (by decide)
    have hdata : parseLine ⟨name, []⟩ (fieldLine ['d', 'a', 't', 'a'] (JsonText.encode (.obj data))) =
        .ok (⟨name, [JsonText.encode (.obj data)]⟩, none) :=
      parseLine_fieldLine (hl _ (by simp [Message.lines])) (forall_mem_of_all (by decide)) (by decide)
    have hrest : parseFrom .init ([fieldLine ['e', 'v', 'e', 'n', 't'] name,
        fieldLine ['d', 'a', 't', 'a'] (JsonText.encode (.obj data)), []] ++ lines) =
        ([⟨name, .obj data⟩] ++ (parseFrom .init lines).1, (parseFrom .init lines).2) := by
      rw [List.cons_append, parseFrom_cons hname, List.cons_append, parseFrom_cons hdata,
        List.cons_append, parseFrom_cons (parseLine_blank hload)]
      rfl
    cases id with
    | none => exact hrest
    | some i =>
      have hid : parseLine .init (fieldLine ['i', 'd'] i) = .ok (.init, none) :=
        parseLine_fieldLine (hl _ (by simp [Message.lines])) (forall_mem_of_all (by decide)) (by decide)
      show parseFrom .init (fieldLine ['i', 'd'] i :: _) = _
      rw [parseFrom_cons hid]
      exact hrest

/-- a whole stream -/
theorem parseFrom_messages {messages : List Message} (h : ∀ m ∈ messages, m.Sound)
    (lines : List (List Char)) :
    parseFrom .init (messages.flatMap Message.lines ++ lines) =
      (messages.flatMap Message.events ++ (parseFrom .init lines).1,
        (parseFrom .init lines).2) := by
  induction messages with
  | nil => rfl
  | cons m messages ih =>
    have hrest := ih fun m hm => h m (List.mem_cons_of_mem _ hm)
    rw [List.flatMap_cons, List.append_assoc, parseFrom_message (h m List.mem_cons_self), hrest,
      List.flatMap_cons, List.append_assoc]

/-- **log events survive the wire**.  Every sequence of events, with names and ids without line
breaks and JSON objects without floats for data, and of keepalives can be written, and however what
is written is split into lines, the client reads the names and the data of the events in order,
nothing of a keepalive, and no error. -/
theorem events_survive (messages : List Message) (h : ∀ m ∈ messages, m.Sound) :
    ∃ text, wire messages = some text ∧
      ∀ lines, textBreaks.Reads text lines →
        parseSse lines = (messages.flatMap Message.events, none) := by
  refine ⟨_, wire_eq h, ?_⟩
  intro lines hr
  have hlines : ∀ l ∈ messages.flatMap Message.lines, ∀ c ∈ l, textBreaks.isBreak c = false := by
    intro l hl
    obtain ⟨m, hm, hl⟩ := List.mem_flatMap.mp hl
    exact Message.oneLine_of_mem (h m hm) hl
  obtain rfl | rfl := hr.eq_of_lines hlines
  · have hall := parseFrom_messages h []
    rw [List.append_nil] at hall
    exact hall.trans (by simp [parseFrom])
  · -- a reader may find an empty line after the last newline
    have hall := parseFrom_messages h [[]]
    exact hall.trans (by simp [show parseFrom .init [[]] = ([], none) from rfl])

namespace Sample

/-- a line of a log, with a line break in it -/
def record : List (List Nat × JsonText.Value) :=
  [([108], .str [97, 10, 8232, 128512]), ([115], .int (-200)), ([], .arr [.null, .str []])]

def messages : List Message :=
  [.event "log".toList record (some "17".toList), .keepalive, .event [] [] none]

theorem sound : ∀ m ∈ messages, m.Sound := by
  have hrecord : Plain (.obj record) := by
    simp only [record, Plain, PlainFields, PlainField, PlainItems, and_true]
    decide
  intro m hm
  simp only [messages, List.mem_cons, List.not_mem_nil, or_false] at hm
  rcases hm with rfl | rfl | rfl
  · refine ⟨by decide, ?_, hrecord, by decide⟩
    intro i hi
    rw [← Option.some.inj hi]
    decide
  · trivial
  · refine ⟨by decide, fun i hi => absurd hi (by simp), ?_, by decide⟩
    exact ⟨List.nodup_nil, trivial⟩

end Sample

theorem events_survive_sample :
    ∃ text, wire Sample.messages = some text ∧
      parseSse (textBreaks.splitlines text) =
        ([⟨"log".toList, .obj Sample.record⟩, ⟨[], .obj []⟩], none) := by
  obtain ⟨text, htext, hread⟩ := events_survive Sample.messages Sample.sound
  exact ⟨text, htext, hread _ (Breaks.reads_splitlines text)⟩

/-- an id with a line break in it is read as more fields of its event -/
theorem id_with_break :
    ¬ ∀ messages : List Message,
      (∀ name data id, .event name data id ∈ messages →
        OneLine name ∧ Plain (.obj data) ∧ tooLong (.obj data) = false) →
      ∃ text, wire messages = some text ∧
        ∀ lines, textBreaks.Reads text lines →
          parseSse lines = (messages.flatMap Message.events, none) := by
  intro h
  have hsound : ∀ name data id,
      Message.event name data id ∈ [Message.event [] [] (some "\ndata: \x7b\x7d".toList)] →
        OneLine name ∧ Plain (.obj data) ∧ tooLong (.obj data) = false := by
    intro name data id hm
    cases List.mem_singleton.mp hm
    exact ⟨by decide, ⟨List.nodup_nil, trivial⟩, rfl⟩
  obtain ⟨text, htext, hread⟩ := h _ hsound
  have hw : wire [.event [] [] (some "\ndata: \x7b\x7d".toList)] =
      some "id: \ndata: \x7b\x7d\nevent: \ndata: \x7b\x7d\n\n".toList := by decide +kernel
  rw [hw] at htext
  have hbad := hread _ (Breaks.reads_splitOn text)
  rw [← Option.some.inj htext] at hbad
  exact absurd (congrArg Prod.snd hbad) (by decide +kernel)

end Freepod.LogEvents
