import EventPost.Settings.Loading

/-!
Where a user's directories lie. The home directory is the one that a variable names, and that of the
account where none is named; a directory of the user's has its place below it, unless a variable
says otherwise.
-/

namespace EventPost.Environment

inductive Home (env : Environment) : String → Prop
  | named {home : String} : env.get? "HOME" = some home → home ≠ "" → Home env home
  | account {home : String} : (∀ named, env.get? "HOME" = some named → named = "") →
    env.accountHome = some home → home ≠ "" → Home env home

/-- Where the directory lies that the variable moves from its place below the home directory. Only
an absolute value moves it. -/
inductive Directory (env : Environment) (name place : String) : String → Prop
  | moved {dir : String} : env.get? name = some dir → dir.startsWith "/" = true →
    Directory env name place dir
  | below {home : String} : (∀ dir, env.get? name = some dir → dir.startsWith "/" = false) →
    env.Home home → Directory env name place (Files.join home place)

variable {env : Environment} {name place dir home : String}

theorem home?_eq_some : env.home? = some home ↔ env.Home home := by
  unfold home?
  rw [Option.or_eq_some_iff, Option.filter_eq_some_iff, Option.filter_eq_some_iff,
    Option.filter_eq_none_iff]
  simp only [decide_eq_true_eq, Decidable.not_not]
  constructor
  · rintro (⟨hnamed, hne⟩ | ⟨hempty, haccount, hne⟩)
    · exact .named hnamed hne
    · exact .account hempty haccount hne
  · rintro (⟨hnamed, hne⟩ | ⟨hempty, haccount, hne⟩)
    · exact .inl ⟨hnamed, hne⟩
    · exact .inr ⟨hempty, haccount, hne⟩

theorem directory?_eq_some :
    env.directory? name place = some dir ↔ env.Directory name place dir := by
  unfold directory?
  rw [Option.or_eq_some_iff, Option.filter_eq_some_iff, Option.filter_eq_none_iff,
    Option.map_eq_some_iff]
  simp only [home?_eq_some, Bool.not_eq_true]
  constructor
  · rintro (⟨hvalue, habsolute⟩ | ⟨hrelative, home, hhome, rfl⟩)
    · exact .moved hvalue habsolute
    · exact .below hrelative hhome
  · rintro (⟨hvalue, habsolute⟩ | ⟨hrelative, hhome⟩)
    · exact .inl ⟨hvalue, habsolute⟩
    · exact .inr ⟨hrelative, _, hhome, rfl⟩

theorem directory?_eq_none :
    env.directory? name place = none ↔ ∀ dir, ¬env.Directory name place dir := by
  simp only [Option.eq_none_iff_forall_ne_some, ne_eq, directory?_eq_some]

end EventPost.Environment
