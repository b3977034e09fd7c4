import EventPost.CommandLine.Run
import EventPost.Proofs.Json.Layout
import EventPost.Proofs.CommandLine.Secrecy
import EventPost.Proofs.Submission.SinglePost

/-!
A dry run shows what would be sent. Both runs make the same event of the same arguments; one prints
its pretty text, and what the other posts is that text without its layout, in one line.
-/

namespace EventPost

open Http (Request Service)

theorem Event.squeeze_pretty (e : Event) : Json.squeeze e.toJson.pretty = e.encode :=
  Json.squeeze_pretty e.toJson

theorem Json.squeeze_line (v : Json) : squeeze (v.pretty ++ "\n") = v.compact := by
  have h := squeezeFrom_writePretty 0 v ['\n']
  have hline : squeezeFrom .outside ['\n'] = [] := rfl
  rw [hline, List.append_nil] at h
  rw [squeeze, pretty, compact, String.toList_append, String.toList_ofList]
  exact congrArg String.ofList h

theorem Event.oneLine_encode (e : Event) : '\n' ∉ e.encode.toList ∧ '\r' ∉ e.encode.toList := by
  have hsolid : ∀ c ∈ e.encode.toList, Json.isSolid c = true := by
    rw [encode, Json.compact, String.toList_ofList]
    exact List.all_eq_true.1 (Json.all_isSolid_write e.toJson)
  exact ⟨fun h => absurd (hsolid _ h) (by decide), fun h => absurd (hsolid _ h) (by decide)⟩

namespace Notifier

theorem posts_of_send (n : Notifier) (s : Service) (e : Event) :
    (∀ q ∈ (n.send s e).requests, q.method = .post → q.body = e.encode) ∧
      ((n.send s e).requests ≠ [] → ∃ q more, (n.send s e).requests = q :: more ∧
        q.method = .post) := by
  cases hp : Request.post n.endpoint n.token e.encode with
  | error f =>
    rw [(n.send_of_not_post hp).2]
    exact ⟨fun q hq => absurd hq List.not_mem_nil, fun h => absurd rfl h⟩
  | ok r =>
    have hr := posts_of_post hp
    rw [(n.send_of_post hp).2]
    refine ⟨fun q hq hm => ?_, fun hne => ?_⟩
    · rcases Http.redirected_of_mem_requests hq with rfl | ⟨p, uri, rfl⟩
      · exact hr.body
      · exact nomatch hm
    · by_cases hreaches : Http.Reaches s r
      · obtain ⟨more, hmore⟩ := Http.requests_exchange hreaches Http.maxRedirects
        exact ⟨r, more, hmore, hr.method⟩
      · obtain ⟨f, -, hx⟩ := Http.exchange_of_unreached hreaches Http.maxRedirects
        rw [hx] at hne
        exact absurd rfl hne

end Notifier

namespace CommandLine

def heading (coloured : Bool) (endpoint : String) : String :=
  Text.paint coloured .blue "→" ++ " Would POST to " ++ Text.paint coloured .cyan endpoint ++ "\n"

def Arguments.rehearsing (a : Arguments) (dry : Bool) : Arguments := { a with dryRun := dry }

theorem rehearsal_shows_post (a : Arguments) (title : String) (terminal coloured : Bool)
    (s : ServerSettings) (stamp : Stamp) (service : Service) :
    let dry := (a.rehearsing true).run title terminal coloured s stamp service
    let sent := (a.rehearsing false).run title terminal coloured s stamp service
    let json := (Event.ofNotification (a.notification title) stamp).toJson.pretty ++ "\n"
    (Format.resolve a.format terminal = .json → dry.stdout = json) ∧
      (Format.resolve a.format terminal = .text →
        dry.stdout = heading coloured (Notifier.ofSettings (a.serverSettings s)).endpoint ++ json) ∧
      (∀ q ∈ sent.requests, q.method = .post →
        q.body = Json.squeeze json ∧ '\n' ∉ q.body.toList ∧ '\r' ∉ q.body.toList) ∧
      (sent.requests ≠ [] → ∃ q more, sent.requests = q :: more ∧ q.method = .post) ∧
      dry.requests = [] ∧ ∀ e : Event, Json.squeeze e.toJson.pretty = e.encode := by
  intro dry sent json
  let e := Event.ofNotification (a.notification title) stamp
  let n := Notifier.ofSettings (a.serverSettings s)
  have hsent : sent.requests = (n.send service e).requests := requests_run rfl _ _ _ _ _ _
  obtain ⟨hposts, hfirst⟩ := n.posts_of_send service e
  rw [hsent]
  have hshown : dry.stdout =
      Report.ofEvent coloured (Format.resolve a.format terminal) n.endpoint e := rfl
  refine ⟨fun hf => ?_, fun hf => ?_, fun q hq hm => ?_, hfirst, rfl, Event.squeeze_pretty⟩
  · rw [hshown, hf]
    rfl
  · rw [hshown, hf, Report.ofEvent, String.append_assoc]
    rfl
  · have hbody := hposts q hq hm
    rw [hbody]
    exact ⟨(Json.squeeze_line e.toJson).symm, e.oneLine_encode⟩

end CommandLine

end EventPost
