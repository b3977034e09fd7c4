/-!
The words of the event service: priority tiers, event types that it routes specially, and the
names of the fields that belong to the client.
-/

namespace EventPost

inductive Priority
  | ambient
  | notice
  | urgent
  | critical
  deriving DecidableEq, Repr

namespace Priority

def all : List Priority := [ambient, notice, urgent, critical]

def name : Priority → String
  | ambient => "ambient"
  | notice => "notice"
  | urgent => "urgent"
  | critical => "critical"

def ofName? (name : String) : Option Priority := all.find? (·.name = name)

def default : Priority := ambient

theorem ofName?_name (p : Priority) : ofName? p.name = some p := by cases p <;> decide

end Priority

namespace Event

def clientSource : String := "rust-adapter"

def defaultType : String := "custom"

def coreFields : List String := ["id", "event_type", "source", "priority", "title", "timestamp"]

def isReserved (key : String) : Bool := coreFields.contains key

/-- Other types are sent as they are. -/
def knownTypes : List String := [
  "pipeline.started", "pipeline.succeeded", "pipeline.failed",
  "pr.opened", "pr.reviewed", "pr.merged", "pr.conflict",
  "issue.opened", "issue.assigned", "issue.closed",
  "review.requested",
  "deploy.pending", "deploy.completed", "deploy.failed",
  "agent.started", "agent.completed", "agent.blocked", "agent.error",
  "security.alert",
  "comment.added",
  "branch.pushed",
  "test.passed", "test.failed",
  "custom"]

end Event

end EventPost
