import EventPost.CommandLine.Report
import EventPost.Proofs.Text.Utf8
import EventPost.Proofs.Yaml.Written
import EventPost.Settings.Loading
import EventPost.Settings.Writer

/-!
What the program writes as YAML, it reads back: settings from a configuration file, and an
acknowledgment as it is printed.
-/

namespace EventPost

namespace Settings

open Yaml Numeral Yaml.Scanner Yaml.Grammar

theorem toYaml_lines (s : Settings) : s.toYaml.toList =
    "server".toList ++ ':' :: '\n' :: (spaces 2 ++
      ("url".toList ++ ':' :: ' ' :: (scalarLine 4 s.server.url.toList ++ (spaces 2 ++
        ("token".toList ++ ':' :: ' ' :: (scalarLine 4 s.server.token.toList ++ (spaces 2 ++
          ("timeout_secs".toList ++ ':' :: ' ' :: (decimal s.server.timeoutSecs.toNat ++
            '\n' :: (spaces 0 ++
              ("log_level".toList ++ ':' :: ' ' :: (scalarLine 2 s.logLevel.name.toList ++
                (spaces 0 ++ []))))))))))))) := by
  have hbelow : writeBelow 0 s.server.toJson = '\n' :: writeMembers 2 [("url", .text s.server.url),
      ("token", .text s.server.token), ("timeout_secs", Json.ofWord s.server.timeoutSecs)] := rfl
  rw [toYaml, Yaml.text, String.toList_ofList, toJson, write,
    writeMembers_key (writtenKey "server" (by decide)),
    writeMembers_key (writtenKey "log_level" (by decide)), hbelow,
    writeMembers_key (writtenKey "url" (by decide)),
    writeMembers_key (writtenKey "token" (by decide)),
    writeMembers_key (writtenKey "timeout_secs" (by decide)), writeBelow_text,
    writeBelow_text, writeBelow_text, writeBelow_word, writeMembers, writeMembers]
  have hzero : spaces 0 = [] := rfl
  simp only [hzero, List.append_assoc, List.cons_append, List.nil_append, List.append_nil]

theorem toYaml_allowed (s : Settings) : ∀ c ∈ s.toYaml.toList, isAllowed c = true := by
  rw [toYaml_lines]
  simp only [List.forall_mem_append, List.forall_mem_cons]
  exact ⟨allowed_key (writtenKey "server" (by decide)), rfl, rfl,
    allowed_spaces 2, allowed_key (writtenKey "url" (by decide)), rfl, rfl,
    fun _ => isAllowed_of_mem_scalarLine,
    allowed_spaces 2, allowed_key (writtenKey "token" (by decide)), rfl, rfl,
    fun _ => isAllowed_of_mem_scalarLine,
    allowed_spaces 2, allowed_key (writtenKey "timeout_secs" (by decide)), rfl, rfl,
    allowed_decimal _, rfl,
    allowed_spaces 0, allowed_key (writtenKey "log_level" (by decide)), rfl, rfl,
    fun _ => isAllowed_of_mem_scalarLine, allowed_spaces 0, fun _ hc => by cases hc⟩

def tokenKinds (s : Settings) : List TokenKind :=
  [.streamStart, .blockMappingStart, .key, .scalar "server".toList .plain, .value,
    .blockMappingStart, .key, .scalar "url".toList .plain, .value,
    .scalar s.server.url.toList (styleOf s.server.url.toList),
    .key, .scalar "token".toList .plain, .value,
    .scalar s.server.token.toList (styleOf s.server.token.toList),
    .key, .scalar "timeout_secs".toList .plain, .value,
    .scalar (decimal s.server.timeoutSecs.toNat) .plain,
    .blockEnd, .key, .scalar "log_level".toList .plain, .value,
    .scalar s.logLevel.name.toList (styleOf s.logLevel.name.toList),
    .blockEnd, .streamEnd]

theorem finishes_toYaml (s : Settings) : Finishes (.ofText s.toYaml.toList) s.tokenKinds := by
  have hlevel : Ends (Before 0 ("log_level".toList ++ ':' :: ' ' ::
      (scalarLine 2 s.logLevel.name.toList ++ (spaces 0 ++ []))) 2 [0, -1]) _ :=
    (moves_outerKey (writtenKey "log_level" (by decide)) (by decide) rfl).ends
      ((moves_text s.logLevel.name.toList (Nat.le_refl 0) Dark.nil).ends ends_text)
  have htimeout := (moves_nextKey (writtenKey "timeout_secs" (by decide)) rfl).ends
    ((moves_plainText (plainAllowed_decimal s.server.timeoutSecs.toNat) Nat.toDigits_ne_nil
      (Nat.zero_le 2) (fresh_key (writtenKey "log_level" (by decide)).keyWord _).dark).ends hlevel)
  have htoken := (moves_nextKey (writtenKey "token" (by decide)) rfl).ends
    ((moves_text s.server.token.toList (Nat.le_refl 2)
      (fresh_key (writtenKey "timeout_secs" (by decide)).keyWord _).dark).ends htimeout)
  have hurl := (moves_firstKey (writtenKey "url" (by decide)) (by decide) rfl).ends
    ((moves_text s.server.url.toList (Nat.le_refl 2)
      (fresh_key (writtenKey "token" (by decide)).keyWord _).dark).ends htoken)
  have hserver := (moves_firstKey (writtenKey "server" (by decide)) (by decide)
    rfl).ends (moves_block.ends hurl)
  rw [toYaml_lines]
  exact finishes_ofText hserver

def eventKinds (s : Settings) : List EventKind :=
  [.mappingStart none none, scalarEvent "server".toList .plain,
    .mappingStart none none, scalarEvent "url".toList .plain,
    scalarEvent s.server.url.toList (styleOf s.server.url.toList),
    scalarEvent "token".toList .plain,
    scalarEvent s.server.token.toList (styleOf s.server.token.toList),
    scalarEvent "timeout_secs".toList .plain,
    scalarEvent (decimal s.server.timeoutSecs.toNat) .plain,
    .mappingEnd, scalarEvent "log_level".toList .plain,
    scalarEvent s.logLevel.name.toList (styleOf s.logLevel.name.toList), .mappingEnd]

theorem reads_tokenKinds (s : Settings) : Grammar.Reads ⟨s.tokenKinds, .streamStart, []⟩
    (.streamStart :: .documentStart :: (s.eventKinds ++ [.documentEnd, .streamEnd]))
    ⟨[], .ended, []⟩ := by
  have hserver : Grammar.Reads ⟨s.tokenKinds, .streamStart, []⟩ _ _ :=
    reads_start.trans (reads_firstKey.trans reads_inner)
  have hmembers := hserver.trans (reads_firstKey.trans (reads_scalar.trans (reads_nextKey.trans
    (reads_scalar.trans (reads_nextKey.trans (reads_scalar.trans reads_blockEnd))))))
  exact hmembers.trans (reads_nextKey.trans (reads_scalar.trans (reads_blockEnd.trans reads_end)))

def serverItems (s : ServerSettings) : List Item :=
  [keyItem "url", textItem s.url, keyItem "token", textItem s.token,
    keyItem "timeout_secs", .scalar ⟨none, none, decimal s.timeoutSecs.toNat, .plain⟩, .mappingEnd]

def items (s : Settings) : List Item :=
  .mappingStart none :: keyItem "server" :: ((.mappingStart none :: serverItems s.server) ++
    [keyItem "log_level", textItem s.logLevel.name, .mappingEnd])

theorem load_toYaml (s : Settings) : ∃ its : Items, its.map (·.1) = s.items ∧
    Yaml.load s.toYaml.toList = ⟨⟨its, [], none⟩, false⟩ := by
  have hserver : "server".toList.length = 6 := rfl
  have hkinds : s.tokenKinds.length = 25 := rfl
  have hevents : s.eventKinds.length = 13 := rfl
  refine load_of_finishes s.finishes_toYaml s.toYaml_allowed ?_ s.reads_tokenKinds ?_ rfl
  · rw [hkinds, toYaml_lines, List.length_append, hserver]
    omega
  · rw [hevents]
    omega

variable {d : Document} {path : Path}

theorem takes_server (s : ServerSettings) :
    Takes (readServer d path) (.mappingStart none :: serverItems s) s := by
  have hword : unsigned? maxWord (decimal s.timeoutSecs.toNat) = some s.timeoutSecs.toNat :=
    unsigned?_decimal (Nat.le_of_lt_succ s.timeoutSecs.toNat_lt)
  have hurl : Takes (readServerMember d .none "url" (path ++ ["url"])) [textItem s.url]
      ⟨some s.url, none, none⟩ :=
    (takes_once (takes_text "a string" s.url) fun v =>
      ServerSettings.Given.mk (some v) none none).of_eq fun _ => if_pos rfl
  have htoken : Takes (readServerMember d ⟨some s.url, none, none⟩ "token" (path ++ ["token"]))
      [textItem s.token] ⟨some s.url, some s.token, none⟩ :=
    (takes_once (takes_text "a string" s.token) fun v =>
      ServerSettings.Given.mk (some s.url) (some v) none).of_eq fun _ =>
      (if_neg (by decide)).trans (if_pos rfl)
  have htimeout : Takes (readServerMember d ⟨some s.url, some s.token, none⟩ "timeout_secs"
      (path ++ ["timeout_secs"])) [.scalar ⟨none, none, decimal s.timeoutSecs.toNat, .plain⟩]
      ⟨some s.url, some s.token, some s.timeoutSecs⟩ :=
    (takes_once (takes_word rfl hword) fun n =>
      ServerSettings.Given.mk (some s.url) (some s.token) (some n)).of_eq fun _ =>
      (if_neg (by decide)).trans ((if_neg (by decide)).trans (if_pos rfl))
  have hmapping := takes_mapping (d := d) "struct ServerConfig" none
    (collects_member hurl (collects_member htoken (collects_member htimeout collects_end)))
  intro its rest hits
  rw [readServer, hmapping its rest hits]
  rfl

theorem takes_settings (s : Settings) : Takes (read d) s.items s := by
  have hserver : Takes (readMember d ⟨none, none⟩ "server" ([] ++ ["server"]))
      (.mappingStart none :: serverItems s.server) ⟨some s.server, none⟩ :=
    (takes_once (takes_server s.server) fun v => Given.mk (some v) none).of_eq fun _ => if_pos rfl
  have hname : LogLevel.ofName? (String.ofList s.logLevel.name.toList) = some s.logLevel := by
    rw [String.ofList_toList, LogLevel.ofName?_name]
  have hlevel : Takes (readMember d ⟨some s.server, none⟩ "log_level" ([] ++ ["log_level"]))
      [textItem s.logLevel.name] ⟨some s.server, some s.logLevel⟩ :=
    (takes_once (takes_choice rfl hname) fun l => Given.mk (some s.server) (some l)).of_eq fun _ =>
      (if_neg (by decide)).trans (if_pos rfl)
  have hmapping := takes_mapping (d := d) "struct Config" none
    (collects_member hserver (collects_member hlevel collects_end))
  intro its rest hits
  rw [read, hmapping its rest hits]
  rfl

theorem parse_toYaml (s : Settings) : parse s.toYaml = .ok s := by
  obtain ⟨its, hits, hload⟩ := load_toYaml s
  exact readDocument_of_takes hload hits s.takes_settings

end Settings

namespace Acknowledgment

open Yaml Numeral Yaml.Scanner Yaml.Grammar

theorem writeItems_texts (ss : List String) :
    writeItems 0 (ss.map .text) = itemLines (ss.map String.toList) := by
  induction ss with
  | nil => rfl
  | cons s ss ih =>
    rw [List.map_cons, writeItems, ih]
    rfl

def idLines (ids : List String) : List Char := writeBelow 0 (Json.textList ids)

theorem idLines_nil : idLines [] = ' ' :: '[' :: ']' :: '\n' :: (spaces 0 ++ []) := rfl

theorem idLines_cons (id : String) (ids : List String) : idLines (id :: ids) =
    '\n' :: (spaces 0 ++ itemLines ((id :: ids).map String.toList)) := by
  rw [← writeItems_texts]
  rfl

theorem toYaml_lines (a : Acknowledgment) : a.toYaml.toList =
    "accepted".toList ++ ':' :: ' ' :: (decimal a.accepted.toNat ++ '\n' :: (spaces 0 ++
      ("event_ids".toList ++ ':' :: idLines a.eventIds))) := by
  rw [toYaml, Yaml.text, String.toList_ofList, toJson, write,
    writeMembers_key (writtenKey "accepted" (by decide)),
    writeMembers_key (writtenKey "event_ids" (by decide)), writeBelow_word, writeMembers, ← idLines]
  have hzero : spaces 0 = [] := rfl
  simp only [hzero, List.append_assoc, List.cons_append, List.nil_append, List.append_nil]

theorem toYaml_allowed (a : Acknowledgment) : ∀ c ∈ a.toYaml.toList, isAllowed c = true := by
  have hitems : ∀ css, ∀ c ∈ itemLines css, isAllowed c = true := by
    intro css c hc
    obtain ⟨cs, -, hcs⟩ := List.mem_flatMap.1 hc
    rw [List.mem_cons, List.mem_cons] at hcs
    rcases hcs with rfl | rfl | hcs
    · rfl
    · rfl
    · exact isAllowed_of_mem_scalarLine hcs
  have hids : ∀ c ∈ idLines a.eventIds, isAllowed c = true := by
    cases a.eventIds with
    | nil => exact forall_mem_of_all (by decide)
    | cons id ids =>
      rw [idLines_cons]
      exact List.forall_mem_cons.2 ⟨rfl, hitems _⟩
  rw [toYaml_lines]
  simp only [List.forall_mem_append, List.forall_mem_cons]
  exact ⟨allowed_key (writtenKey "accepted" (by decide)), rfl, rfl, allowed_decimal _, rfl,
    allowed_spaces 0, allowed_key (writtenKey "event_ids" (by decide)), rfl, hids⟩

theorem length_idLines (ids : List String) : 2 * ids.length ≤ (idLines ids).length := by
  have hitems : ∀ css, 2 * css.length ≤ (itemLines css).length := by
    intro css
    induction css with
    | nil => exact Nat.le_refl _
    | cons cs css ih =>
      simp only [itemLines, List.flatMap_cons, List.length_append, List.length_cons] at ih ⊢
      omega
  cases ids with
  | nil => exact Nat.zero_le _
  | cons id ids =>
    have hlines := hitems ((id :: ids).map String.toList)
    rw [List.length_map] at hlines
    rw [idLines_cons]
    exact Nat.le_succ_of_le hlines

def idKinds : List String → List TokenKind
  | [] => [.flowSequenceStart, .flowSequenceEnd, .blockEnd, .streamEnd]
  | ids => itemTokens (ids.map String.toList) ++ [.blockEnd, .streamEnd]

theorem length_idKinds (ids : List String) :
    2 * ids.length ≤ (idKinds ids).length ∧ (idKinds ids).length ≤ 2 * ids.length + 4 := by
  have hitems : ∀ css, (itemTokens css).length = 2 * css.length := by
    intro css
    induction css with
    | nil => rfl
    | cons cs css ih =>
      simp only [itemTokens, List.flatMap_cons, List.length_append, List.length_cons,
        List.length_nil] at ih ⊢
      omega
  cases ids with
  | nil => exact ⟨Nat.zero_le _, Nat.le_refl _⟩
  | cons id ids =>
    have htokens := hitems ((id :: ids).map String.toList)
    rw [List.length_map] at htokens
    simp only [idKinds, List.length_append, htokens, List.length_cons, List.length_nil]
    omega

theorem ends_ids (ids : List String) : Ends (Behind (idLines ids) 0 [-1]) (idKinds ids) := by
  cases ids with
  | nil =>
    rw [idLines_nil]
    exact moves_brackets.ends ends_text
  | cons id ids =>
    rw [idLines_cons]
    exact moves_block.ends (ends_list id.toList (ids.map String.toList))

def tokenKinds (a : Acknowledgment) : List TokenKind :=
  [.streamStart, .blockMappingStart, .key, .scalar "accepted".toList .plain, .value,
    .scalar (decimal a.accepted.toNat) .plain, .key, .scalar "event_ids".toList .plain, .value] ++
    idKinds a.eventIds

theorem finishes_toYaml (a : Acknowledgment) : Finishes (.ofText a.toYaml.toList) a.tokenKinds := by
  have hhead : (idLines a.eventIds).head?.any isBlankOrBreak = true := by
    cases a.eventIds <;> rfl
  have hids := (moves_nextKey (writtenKey "event_ids" (by decide)) hhead).ends
    (ends_ids a.eventIds)
  have haccepted := (moves_firstKey (writtenKey "accepted" (by decide)) (by decide) rfl).ends
    ((moves_plainText (plainAllowed_decimal a.accepted.toNat) Nat.toDigits_ne_nil (Nat.zero_le 0)
      (fresh_key (writtenKey "event_ids" (by decide)).keyWord _).dark).ends hids)
  rw [toYaml_lines]
  exact finishes_ofText haccepted

def eventKinds (a : Acknowledgment) : List EventKind :=
  [.mappingStart none none, scalarEvent "accepted".toList .plain,
    scalarEvent (decimal a.accepted.toNat) .plain, scalarEvent "event_ids".toList .plain,
    .sequenceStart none none] ++
    (a.eventIds.map fun id => scalarEvent id.toList (styleOf id.toList)) ++
    [.sequenceEnd, .mappingEnd]

theorem reads_items (ids : List String) (ks : List TokenKind) (s : State) (p : List State) :
    Reads ⟨itemTokens (ids.map String.toList) ++ .blockEnd :: ks, .indentlessEntry, s :: p⟩
      ((ids.map fun id => scalarEvent id.toList (styleOf id.toList)) ++ [.sequenceEnd])
      ⟨.blockEnd :: ks, s, p⟩ := by
  induction ids with
  | nil => exact reads_listEnd
  | cons id ids ih => exact reads_item.trans ih

theorem reads_ids (ids : List String) (p : List State) :
    Reads ⟨.value :: idKinds ids, .blockValue, p⟩
      (.sequenceStart none none :: ((ids.map fun id => scalarEvent id.toList (styleOf id.toList)) ++
        [.sequenceEnd])) ⟨[.blockEnd, .streamEnd], .blockKey false, p⟩ := by
  cases ids with
  | nil => exact reads_brackets
  | cons id ids => exact reads_list.trans (reads_items (id :: ids) [.streamEnd] _ p)

theorem reads_tokenKinds (a : Acknowledgment) : Reads ⟨a.tokenKinds, .streamStart, []⟩
    (.streamStart :: .documentStart :: (a.eventKinds ++ [.documentEnd, .streamEnd]))
    ⟨[], .ended, []⟩ := by
  have hkeys : Reads ⟨a.tokenKinds, .streamStart, []⟩ _
      ⟨.value :: idKinds a.eventIds, .blockValue, [.documentEnd]⟩ :=
    reads_start.trans (reads_firstKey.trans (reads_scalar.trans reads_nextKey))
  have hall := hkeys.trans ((reads_ids a.eventIds _).trans (reads_blockEnd.trans reads_end))
  simpa [eventKinds, List.append_assoc] using hall

def items (a : Acknowledgment) : List Item :=
  .mappingStart none :: keyItem "accepted" ::
    ([.scalar ⟨none, none, decimal a.accepted.toNat, .plain⟩] ++ keyItem "event_ids" ::
      (.sequenceStart none :: (a.eventIds.map textItem ++ [.sequenceEnd]) ++ [.mappingEnd]))

theorem load_toYaml (a : Acknowledgment) : ∃ its : Items, its.map (·.1) = a.items ∧
    load a.toYaml.toList = ⟨⟨its, [], none⟩, false⟩ := by
  have hlines := length_idLines a.eventIds
  have hkey : "accepted".toList.length = 8 := rfl
  obtain ⟨hlower, hupper⟩ := length_idKinds a.eventIds
  have hkinds : a.tokenKinds.length = 9 + (idKinds a.eventIds).length := List.length_append
  refine load_of_finishes a.finishes_toYaml a.toYaml_allowed ?_ a.reads_tokenKinds ?_ ?_
  · rw [hkinds, toYaml_lines]
    simp only [List.length_append, List.length_cons, hkey]
    omega
  · rw [hkinds, eventKinds]
    simp only [List.length_append, List.length_cons, List.length_nil, List.length_map]
    omega
  · simp [eventKinds, items, itemOf?, scalarEvent, keyItem, textItem]

variable {d : Document} {path : Path}

theorem takes_acknowledgment (a : Acknowledgment) : Takes (readYaml d) a.items a := by
  have hword : unsigned? maxWord (decimal a.accepted.toNat) = some a.accepted.toNat :=
    unsigned?_decimal (Nat.le_of_lt_succ a.accepted.toNat_lt)
  have haccepted : Takes (readYamlMember d ⟨none, none⟩ "accepted" ([] ++ ["accepted"]))
      [.scalar ⟨none, none, decimal a.accepted.toNat, .plain⟩] ⟨some a.accepted, none⟩ :=
    (takes_once (takes_word rfl hword) fun n => Partial.mk (some n) none).of_eq fun _ => if_pos rfl
  have hids : Takes (readYamlMember d ⟨some a.accepted, none⟩ "event_ids" ([] ++ ["event_ids"]))
      (.sequenceStart none :: (a.eventIds.map textItem ++ [.sequenceEnd]))
      ⟨some a.accepted, some a.eventIds⟩ :=
    (takes_once (takes_texts a.eventIds none) fun ids =>
      Partial.mk (some a.accepted) (some ids)).of_eq fun _ =>
      (if_neg (by decide)).trans (if_pos rfl)
  have hmapping := takes_mapping (d := d) expected none
    (collects_member haccepted (collects_member hids collects_end))
  intro its rest hits
  rw [readYaml, hmapping its rest hits]

theorem ofYaml_toYaml (a : Acknowledgment) : ofYaml a.toYaml = .ok a := by
  obtain ⟨its, hits, hload⟩ := load_toYaml a
  exact readDocument_of_takes hload hits a.takes_acknowledgment

end Acknowledgment

/-- What is written is read back: settings as the content of a configuration file, and an
acknowledgment as it is printed. -/
theorem written_yaml_reads_back :
    (∀ (files : Files) (path : String) (s : Settings),
      files path = .file (Text.bytesOf s.toYaml) → Settings.readFile files path = .ok s) ∧
    ∀ (coloured : Bool) (a : Acknowledgment),
      Acknowledgment.ofYaml (CommandLine.Report.ofAcknowledgment coloured .yaml a) = .ok a := by
  refine ⟨fun files path s hfile => ?_, fun coloured a => a.ofYaml_toYaml⟩
  have hread : files.readText path = .ok s.toYaml := by
    rw [Files.readText, hfile]
    simp only [Text.decodeString?_eq_some.2 rfl]
  rw [Settings.readFile, hread]
  simp only [s.parse_toYaml]

theorem written_yaml_reads_back_words :
    Settings.readFile (fun _ => .file (Text.bytesOf (Settings.toYaml
      ⟨⟨"null", " it's: \n#\u2028", 0⟩, .off⟩))) "notify.yaml" =
        .ok ⟨⟨"null", " it's: \n#\u2028", 0⟩, .off⟩ ∧
    Acknowledgment.ofYaml (CommandLine.Report.ofAcknowledgment true .yaml ⟨2, ["", "1e3"]⟩) =
      .ok ⟨2, ["", "1e3"]⟩ :=
  ⟨written_yaml_reads_back.1 _ _ _ rfl, written_yaml_reads_back.2 true ⟨2, ["", "1e3"]⟩⟩

end EventPost
