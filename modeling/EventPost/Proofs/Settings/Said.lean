import EventPost.Proofs.Yaml.Members
import EventPost.Settings.Reader

/-!
What a text says of the settings, key by key, and what is made of it: the settings are what the text
says, and the default for each key that it leaves out.
-/

namespace EventPost

open Yaml (Document Items Behind Outcome Path Told)

/-- What the members of a mapping say of the service. -/
structure ServerSettings.Given.Matches (d : Document) (ms : List (String × Items))
    (g : ServerSettings.Given) : Prop where
  url : Told d.TextAt "url" ms g.url
  token : Told d.TextAt "token" ms g.token
  timeoutSecs : Told d.WordAt "timeout_secs" ms g.timeoutSecs

namespace Settings

def ServerAt (d : Document) (items : Items) (g : ServerSettings.Given) : Prop :=
  ∃ ms, d.MappingAt items ms ∧ g.Matches d ms

structure Said where
  server : Option ServerSettings.Given
  logLevel : Option LogLevel

namespace Said

def nothing : Said := ⟨none, none⟩

def url (f : Said) : Option String := f.server.bind (·.url)

def token (f : Said) : Option String := f.server.bind (·.token)

def timeoutSecs (f : Said) : Option UInt64 := f.server.bind (·.timeoutSecs)

/-- The settings that follow from what a text says, with the defaults for what it leaves out. -/
structure Gives (f : Said) (s : Settings) : Prop where
  url : s.server.url = f.url.getD "http://localhost:8080"
  token : s.server.token = f.token.getD ""
  timeoutSecs : s.server.timeoutSecs = f.timeoutSecs.getD 10
  logLevel : s.logLevel = f.logLevel.getD .info

end Said

def Says (text : String) (f : Said) : Prop :=
  let d := (Yaml.load text.toList).document
  ∃ ms, d.MappingAt d.items ms ∧ Told (ServerAt d) "server" ms f.server ∧
    Told (d.ChoiceAt LogLevel.ofName?) "log_level" ms f.logLevel

variable {d : Document} {items rest : Items}

theorem matches_readServerMember {before : List (String × Items)} {g g' : ServerSettings.Given}
    {key : String} {path : Path} (hg : g.Matches d before)
    (h : readServerMember d g key path items = .ok (g', rest)) :
    g'.Matches d (before ++ [(key, items)]) ∧ Behind d items rest := by
  unfold readServerMember at h
  split at h
  · rename_i hkey
    subst hkey
    obtain ⟨hnew, v, hread, rfl⟩ := Yaml.once_eq_ok h
    obtain ⟨hat, hbehind, -⟩ := Yaml.readText_eq_ok hread
    exact ⟨⟨(hnew ▸ hg.url).new hat, hg.token.other (by decide) _,
      hg.timeoutSecs.other (by decide) _⟩, hbehind⟩
  · rename_i hurl
    split at h
    · rename_i hkey
      subst hkey
      obtain ⟨hnew, v, hread, rfl⟩ := Yaml.once_eq_ok h
      obtain ⟨hat, hbehind, -⟩ := Yaml.readText_eq_ok hread
      exact ⟨⟨hg.url.other (by decide) _, (hnew ▸ hg.token).new hat,
        hg.timeoutSecs.other (by decide) _⟩, hbehind⟩
    · rename_i htoken
      split at h
      · rename_i hkey
        subst hkey
        obtain ⟨hnew, v, hread, rfl⟩ := Yaml.once_eq_ok h
        obtain ⟨hat, hbehind⟩ := Yaml.readWord_eq_ok hread
        exact ⟨⟨hg.url.other (by decide) _, hg.token.other (by decide) _,
          (hnew ▸ hg.timeoutSecs).new hat⟩, hbehind⟩
      · rename_i htimeout
        obtain ⟨rfl, hbehind⟩ := Yaml.skipped_eq_ok h
        exact ⟨⟨hg.url.other hurl _, hg.token.other htoken _, hg.timeoutSecs.other htimeout _⟩,
          hbehind⟩

theorem serverAt_of_readServer {path : Path} {s : ServerSettings} (hitems : items <:+ d.items)
    (h : readServer d path items = .ok (s, rest)) :
    ∃ g, ServerAt d items g ∧ s = g.settings ∧ Behind d items rest := by
  unfold readServer at h
  split at h
  · exact nomatch h
  · rename_i g after hread
    obtain ⟨rfl, rfl⟩ := Prod.mk.inj (Except.ok.inj h)
    have hstart : ServerSettings.Given.none.Matches d [] :=
      ⟨Yaml.told_nil, Yaml.told_nil, Yaml.told_nil⟩
    obtain ⟨ms, hms, hg, hbehind⟩ := Yaml.mapping_of_readMapping
      (fun hg _ hstep => matches_readServerMember hg hstep) hitems hstart hread
    exact ⟨g, ⟨ms, hms, hg⟩, rfl, hbehind⟩

/-- The settings read so far are what the members read so far say. -/
structure Given.Matches (d : Document) (ms : List (String × Items)) (g : Given) : Prop where
  server : ∃ server, g.server = server.map (·.settings) ∧ Told (ServerAt d) "server" ms server
  logLevel : Told (d.ChoiceAt LogLevel.ofName?) "log_level" ms g.logLevel

theorem matches_readMember {before : List (String × Items)} {g g' : Given} {key : String}
    {path : Path} (hg : g.Matches d before) (hitems : items <:+ d.items)
    (h : readMember d g key path items = .ok (g', rest)) :
    g'.Matches d (before ++ [(key, items)]) ∧ Behind d items rest := by
  obtain ⟨server, hserver, htold⟩ := hg.server
  unfold readMember at h
  split at h
  · rename_i hkey
    subst hkey
    obtain ⟨hnew, v, hread, rfl⟩ := Yaml.once_eq_ok h
    obtain ⟨given, hat, rfl, hbehind⟩ := serverAt_of_readServer hitems hread
    rw [hnew] at hserver
    rw [Option.map_eq_none_iff.1 hserver.symm] at htold
    exact ⟨⟨⟨some given, rfl, htold.new hat⟩, hg.logLevel.other (by decide) _⟩, hbehind⟩
  · rename_i hkey
    split at h
    · rename_i hlevel
      subst hlevel
      obtain ⟨hnew, v, hread, rfl⟩ := Yaml.once_eq_ok h
      obtain ⟨hat, hbehind⟩ := Yaml.readChoice_eq_ok hread
      exact ⟨⟨⟨server, hserver, htold.other hkey _⟩, (hnew ▸ hg.logLevel).new hat⟩, hbehind⟩
    · rename_i hlevel
      obtain ⟨rfl, hbehind⟩ := Yaml.skipped_eq_ok h
      exact ⟨⟨⟨server, hserver, htold.other hkey _⟩, hg.logLevel.other hlevel _⟩, hbehind⟩

theorem says_of_parse {text : String} {s : Settings} (h : parse text = .ok s) :
    ∃ f, Says text f ∧ f.Gives s := by
  obtain ⟨rest, hread⟩ := Yaml.readDocument_eq_ok h
  generalize hd : (Yaml.load text.toList).document = d at hread
  unfold read at hread
  split at hread
  · exact nomatch hread
  · rename_i g after hmapping
    obtain ⟨rfl, rfl⟩ := Prod.mk.inj (Except.ok.inj hread)
    have hstart : Given.Matches d [] ⟨none, none⟩ := ⟨⟨none, rfl, Yaml.told_nil⟩, Yaml.told_nil⟩
    obtain ⟨ms, hms, hg, -⟩ :=
      Yaml.mapping_of_readMapping matches_readMember List.suffix_rfl hstart hmapping
    obtain ⟨server, hserver, htold⟩ := hg.server
    refine ⟨⟨server, g.logLevel⟩, ?_, ?_⟩
    · rw [Says, hd]
      exact ⟨ms, hms, htold, hg.logLevel⟩
    · rw [Given.settings, hserver]
      cases server with
      | none => exact ⟨rfl, rfl, rfl, rfl⟩
      | some given => exact ⟨rfl, rfl, rfl, rfl⟩

end Settings

end EventPost
