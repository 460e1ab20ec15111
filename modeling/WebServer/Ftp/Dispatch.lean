import WebServer.Ftp.FtpConnection
import Mathlib.Data.List.TakeWhile

/-!
# Ftp/Dispatch — which handler a message gets

A message asks for a command by its first word, and carries what follows the first blank.  The
parser looks for the names of the commands inside the word, one name after the other; it takes the
last bytes off what it cuts out of the message, as `commandOffset_` says; and it reads the word of
an empty message from an empty vector.
-/

namespace WebServer.Ftp

open Utility (ReadResult)

/-! ## What a message asks for -/

/-- **The first word** of a message. -/
def firstWord (m : Bytes) : Bytes := m.takeWhile (· ≠ Chr.space)

/-- **What follows the first blank**, if anything does. -/
def afterBlank (m : Bytes) : Option Bytes :=
  match m.drop ((firstWord m).length + 1) with
  | [] => none
  | c :: rest => some (c :: rest)

/-- The commands without a parameter, in the order of the tests. -/
def bareCommands : List (Bytes × Command) :=
  [(text "list", .ls (text "./")), (text "ls", .ls (text "./")), (text "pwd", .pwd),
    (text "getparentdir", .getparentdir), (text "quit", .quit)]

/-- The commands with a parameter, in the order of the tests. -/
def parameterCommands (p : Bytes) : List (Bytes × Command) :=
  [(text "ls", .ls p), (text "download", .download p), (text "upload", .upload p),
    (text "cd", .cd p),
    (text "mkdir", .mkdir p), (text "rmdir", .rmdir p), (text "touch", .touch p)]

/-- The commands of a message. -/
def commandsOf (m : Bytes) : List (Bytes × Command) :=
  match afterBlank m with
  | none => bareCommands
  | some p => parameterCommands p

/-- **A message asks for a command**: its first word is a name of it, ignoring case. -/
def AsksFor (m : Bytes) (c : Command) : Prop := ((firstWord m).map toLower, c) ∈ commandsOf m

/-! ## What the parser makes of it -/

/-- **The handler that a message gets**, and the session it starts in; nothing where the parser
reads past the end of an empty vector. -/
def dispatched (s : Session) (m : Bytes) : Option (Command × Session) :=
  (Command.of (extractParameters s.commandOffset m)).map fun c =>
    (c, { s with parameter := (extractParameters s.commandOffset m).getD 1 s.parameter })

/-- **The answer to an unknown command**, and nothing else. -/
def Refused (s : Session) (r : Option ProcessState × Session) : Prop :=
  ∃ parameter, r = (some .parse,
    (writen (text "Unknown command! \n") { s with parameter := parameter }).2)

/-- **A message is dispatched exactly**: a handler runs, it is that of a command the message asks
for, with what follows the first blank, and a message that asks for none is refused. -/
structure Dispatches (os : Os) (s : Session) (m : Bytes) : Prop where
  total : ∃ c s', dispatched s m = some (c, s')
  exact (c : Command) (s' : Session) : dispatched s m = some (c, s') → c ≠ .unknown →
    AsksFor m c ∧ ∀ p, afterBlank m = some p → s'.parameter = p
  refused : (∀ c, ¬ AsksFor m c) → Refused s (commandParser os (Utility.deliver m) s)

/-- No name of a command is part of a word, ignoring case. -/
def NoneInside (names : List (Bytes × Command)) (word : Bytes) : Prop :=
  ∀ e ∈ names, ¬ e.1 <:+: word.map toLower

/-- The word in which the parser looks for a command: a message without a blank loses its last
bytes, all but one of `commandOffset` (of more than there are it loses none). -/
def seenWord (commandOffset : ℕ) (m : Bytes) : Bytes :=
  if Chr.space ∈ m ∨ m.length + 1 < commandOffset then firstWord m
  else m.take (m.length + 1 - commandOffset)

/-- **The messages that are dispatched exactly.**  They are not empty; no name of a command is part
of the word the parser sees, or the first word is a name, and the parser sees all of it and of what
follows the blank. -/
structure Clear (commandOffset : ℕ) (m : Bytes) : Prop where
  ne_nil : m ≠ []
  word : NoneInside (commandsOf m) (seenWord commandOffset m) ∨
    (∃ c, AsksFor m c) ∧ seenWord commandOffset m = firstWord m ∧
      ((afterBlank m).isSome → commandOffset ≤ 1 ∨ m.length < (firstWord m).length + commandOffset)

/-! ## Names inside a word -/

/-- The command of the first name that is part of a word. -/
def lookup (names : List (Bytes × Command)) (word : Bytes) : Command :=
  ((names.find? fun e => commandEquals word e.1).map (·.2)).getD .unknown

section Lookup

variable {names : List (Bytes × Command)} {word p : Bytes} {c : Command}

theorem commandEquals_iff {a b : Bytes} : commandEquals a b = true ↔ b <:+: a.map toLower := by
  rw [commandEquals, ← not_iff_not, Bool.not_eq_true, Option.isSome_eq_false_iff,
    Option.isNone_iff_eq_none, findStr_eq_none_iff]

theorem lookup_cons (n : Bytes) (c : Command) (names : List (Bytes × Command)) (word : Bytes) :
    lookup ((n, c) :: names) word = if commandEquals word n then c else lookup names word := by
  rw [lookup, List.find?_cons, lookup]
  split <;> simp [*]

theorem lookup_nil (word : Bytes) : lookup [] word = .unknown := rfl

theorem of_bare (word : Bytes) : Command.of [word] = some (lookup bareCommands word) := by
  simp only [Command.of, bareCommands, lookup_cons, lookup_nil, ite_or]

theorem of_parameter (word p : Bytes) :
    Command.of [word, p] = some (lookup (parameterCommands p) word) := by
  simp only [Command.of, parameterCommands, lookup_cons, lookup_nil]

/-- **A word in which no name is found is unknown**, and no other. -/
theorem lookup_eq_unknown_iff (hnames : ∀ e ∈ names, e.2 ≠ .unknown) :
    lookup names word = .unknown ↔ NoneInside names word := by
  induction names with
  | nil => exact iff_of_true rfl nofun
  | cons e names ih =>
    rw [lookup_cons, NoneInside, List.forall_mem_cons, ← commandEquals_iff]
    by_cases h : commandEquals word e.1
    · rw [if_pos h]
      exact iff_of_false (hnames e (List.mem_cons_self ..)) fun hnone => hnone.1 h
    · rw [if_neg h, ih fun e' he' => hnames e' (List.mem_cons_of_mem e he'), and_iff_right h]
      rfl

theorem bareCommands_ne : ∀ e ∈ bareCommands, e.2 ≠ .unknown := by decide

theorem parameterCommands_ne (p : Bytes) : ∀ e ∈ parameterCommands p, e.2 ≠ .unknown := by
  simp [parameterCommands]

/-- **A name is found as its own command**: no name tested earlier is part of it. -/
theorem lookup_of_mem_bare (h : (word.map toLower, c) ∈ bareCommands) :
    lookup bareCommands word = c := by
  have key : ∀ e ∈ bareCommands, ((bareCommands.find? fun e' =>
      (findStr e'.1 e.1).isSome).map (·.2)).getD .unknown = e.2 := by decide
  exact key _ h

theorem lookup_of_mem_parameter (h : (word.map toLower, c) ∈ parameterCommands p) :
    lookup (parameterCommands p) word = c := by
  have key : ∀ e ∈ parameterCommands p, (((parameterCommands p).find? fun e' =>
      (findStr e'.1 e.1).isSome).map (·.2)).getD .unknown = e.2 := by
    simp only [parameterCommands, List.forall_mem_cons]
    exact ⟨rfl, rfl, rfl, rfl, rfl, rfl, rfl, nofun⟩
  exact key _ h

end Lookup

/-! ## Words and parameters -/

section Words

variable {m w t p : Bytes}

theorem firstWord_append (hw : Chr.space ∉ w) (t : Bytes) :
    firstWord (w ++ Chr.space :: t) = w := takeWhile_append_cons hw t

theorem firstWord_of_not_mem (h : Chr.space ∉ m) : firstWord m = m :=
  List.takeWhile_eq_self_iff.mpr fun _ hb => decide_eq_true fun e => h (e ▸ hb)

theorem take_firstWord (m : Bytes) : m.take (firstWord m).length = firstWord m :=
  (List.prefix_iff_eq_take.mp (List.takeWhile_prefix _)).symm

theorem drop_word (w t : Bytes) : (w ++ Chr.space :: t).drop (w.length + 1) = t := by
  rw [← List.singleton_append, ← List.append_assoc]
  exact List.drop_left' (by rw [List.length_append, List.length_singleton])

/-- A message without a blank, or a word and what follows the first blank. -/
theorem words (m : Bytes) :
    Chr.space ∉ m ∧ firstWord m = m ∧ afterBlank m = none ∨
      ∃ t, m = firstWord m ++ Chr.space :: t ∧ Chr.space ∉ firstWord m ∧
        afterBlank m = if t = [] then none else some t := by
  by_cases h : Chr.space ∈ m
  · obtain ⟨w, t, rfl, hw⟩ := List.eq_append_cons_of_mem h
    refine .inr ⟨t, ?_, ?_, ?_⟩
    · rw [firstWord_append hw]
    · rwa [firstWord_append hw]
    · rw [afterBlank, firstWord_append hw, drop_word]
      cases t <;> rfl
  · have hword := firstWord_of_not_mem h
    refine .inl ⟨h, hword, ?_⟩
    rw [afterBlank, hword, List.drop_eq_nil_of_le (Nat.le_succ _)]

/-- The position of the first blank. -/
theorem findChar_space (h : m = firstWord m ++ Chr.space :: t) (hw : Chr.space ∉ firstWord m) :
    findChar m Chr.space (some 0) = some (firstWord m).length := by
  have hfind := findChar_zero hw t
  rwa [← h] at hfind

/-- **A message without a parameter**: the word that the parser sees. -/
theorem extractParameters_of_none (commandOffset : ℕ) (hne : m ≠ []) (h : afterBlank m = none) :
    extractParameters commandOffset m = [seenWord commandOffset m] := by
  obtain ⟨hspace, hword, -⟩ | ⟨t, hm, hw, ht⟩ := words m
  · have hfind : findChar m Chr.space (some 0) = none := findChar_append_none [] hspace
    rw [extractParameters, hfind]
    dsimp only
    rw [if_pos (List.length_pos_of_ne_nil hne), seenWord, hword, lengthFrom]
    by_cases hk : commandOffset ≤ m.length + 1
    · rw [if_pos hk, if_neg (not_or.mpr ⟨hspace, not_lt.mpr hk⟩)]
      rfl
    · rw [if_neg hk, if_pos (.inr (not_le.mp hk))]
      rfl
  · obtain rfl : t = [] := by
      by_contra hne
      rw [h, if_neg hne] at ht
      exact Option.some_ne_none _ ht.symm
    have hlen : m.length = (firstWord m).length + 1 := by
      conv_lhs => rw [hm]
      exact List.length_append
    have hspace : Chr.space ∈ m := by
      rw [hm]
      exact List.mem_append_right _ (List.mem_singleton_self _)
    rw [extractParameters, findChar_space hm hw]
    dsimp only
    rw [if_neg (by omega), seenWord, if_pos (.inl hspace), take_firstWord]

/-- **A message with one**: the first word, and what the parser cuts out of what follows the blank.
-/
theorem extractParameters_of_some (commandOffset : ℕ) (h : afterBlank m = some p) :
    seenWord commandOffset m = firstWord m ∧ ∃ p', extractParameters commandOffset m =
      [firstWord m, p'] ∧ (p' = p ↔ commandOffset ≤ 1 ∨
        m.length < (firstWord m).length + commandOffset) := by
  obtain ⟨hspace, hword, hnone⟩ | ⟨t, hm, hw, ht⟩ := words m
  · exact absurd (hnone.symm.trans h) (Option.some_ne_none _).symm
  · obtain ⟨hne, rfl⟩ : t ≠ [] ∧ t = p := by
      rw [h] at ht
      split at ht
      · exact absurd ht (Option.some_ne_none _)
      · next hne => exact ⟨hne, (Option.some.inj ht).symm⟩
    have hpos := List.length_pos_of_ne_nil hne
    have hlen : m.length = (firstWord m).length + (t.length + 1) := by
      conv_lhs => rw [hm]
      exact List.length_append
    have hspace : Chr.space ∈ m := by
      rw [hm]
      exact List.mem_append_right _ (List.mem_cons_self ..)
    have hdrop : m.drop ((firstWord m).length + 1) = t :=
      (congrArg (List.drop _) hm).trans (drop_word _ t)
    refine ⟨if_pos (.inl hspace), _, by
      rw [extractParameters, findChar_space hm hw]
      dsimp only
      rw [take_firstWord, if_pos (by omega)], ?_⟩
    rw [lengthFrom]
    split
    · next hle =>
      rw [substr, hdrop, List.take_eq_self_iff]
      omega
    · next hle =>
      rw [substr, hdrop]
      exact iff_of_true rfl (.inr (not_le.mp hle))

end Words

/-! ## Dispatch -/

section Dispatch

variable {os : Os} {s : Session} {m p : Bytes} {c : Command}

/-- **The parser runs the handler that it finds.** -/
theorem commandParser_of_dispatched {s' : Session} (h : dispatched s m = some (c, s')) :
    commandParser os (Utility.deliver m) s = execute os c s' := by
  obtain ⟨c', hc', he⟩ := Option.map_eq_some_iff.mp h
  obtain ⟨rfl, rfl⟩ := Prod.ext_iff.mp he
  have hread : (readn (Utility.deliver m)).buffer = m := by rw [readn_deliver]
  rw [commandParser_of_some (not_failed_deliver m) (by rw [hread]; exact hc'), hread]

theorem refused_of_unknown {s' : Session} (h : dispatched s m = some (.unknown, s')) :
    Refused s (commandParser os (Utility.deliver m) s) := by
  rw [commandParser_of_dispatched h]
  obtain ⟨c', -, he⟩ := Option.map_eq_some_iff.mp h
  obtain ⟨-, rfl⟩ := Prod.ext_iff.mp he
  exact ⟨_, rfl⟩

/-- **What an exact dispatch comes to**, of the handler that is found. -/
theorem dispatches_iff {names : List (Bytes × Command)} {word : Bytes} {s' : Session}
    (hd : dispatched s m = some (lookup names word, s')) (hnames : ∀ e ∈ names, e.2 ≠ .unknown)
    (hinside : NoneInside names word ↔ NoneInside (commandsOf m) word) :
    Dispatches os s m ↔ NoneInside (commandsOf m) word ∨
      AsksFor m (lookup names word) ∧ ∀ p, afterBlank m = some p → s'.parameter = p := by
  have hunknown : lookup names word = .unknown ↔ NoneInside (commandsOf m) word :=
    (lookup_eq_unknown_iff hnames).trans hinside
  constructor
  · intro h
    by_cases hnone : NoneInside (commandsOf m) word
    · exact .inl hnone
    · exact .inr (h.exact _ _ hd fun he => hnone (hunknown.mp he))
  · intro h
    refine ⟨⟨_, _, hd⟩, fun c s₁ hd₁ hc => ?_, fun hasks => ?_⟩
    · obtain ⟨rfl, rfl⟩ := Prod.ext_iff.mp (Option.some.inj (hd.symm.trans hd₁))
      exact h.resolve_left fun hnone => hc (hunknown.mpr hnone)
    · have hnone := h.resolve_right fun hask => hasks _ hask.1
      rw [hunknown.mpr hnone] at hd
      exact refused_of_unknown hd

theorem seenWord_prefix_firstWord (commandOffset : ℕ) (m : Bytes) :
    seenWord commandOffset m <+: firstWord m := by
  rw [seenWord]
  split
  · exact List.prefix_rfl
  · next h =>
    rw [firstWord_of_not_mem (not_or.mp h).1]
    exact List.take_prefix _ _

/-- **No name without a parameter is part of another that lost its end.** -/
theorem eq_of_prefix_bare {w : Bytes} (hw : ∃ c, (w.map toLower, c) ∈ bareCommands) {v : Bytes}
    (hv : v <+: w) (hinside : ¬ NoneInside bareCommands v) : v = w := by
  have key : ∀ e ∈ bareCommands, ∀ e' ∈ bareCommands, ¬ e.1 <:+: e'.1.dropLast := by decide
  obtain ⟨c, hc⟩ := hw
  rw [NoneInside] at hinside
  push Not at hinside
  obtain ⟨e, he, hin⟩ := hinside
  obtain ⟨t, rfl⟩ := hv
  by_contra hne
  have ht : t ≠ [] := fun h => hne (by rw [h, List.append_nil])
  refine key e he _ hc (hin.trans ?_)
  rw [← List.map_dropLast, List.dropLast_append_of_ne_nil ht, List.map_append]
  exact (List.prefix_append _ _).isInfix

/-- **Exactly the clear messages are dispatched exactly.** -/
theorem dispatches_iff_clear (os : Os) (s : Session) (m : Bytes) :
    Dispatches os s m ↔ Clear s.commandOffset m := by
  by_cases hne : m = []
  · refine iff_of_false (fun h => ?_) fun h => h.ne_nil hne
    obtain ⟨c, s', hd⟩ := h.total
    rw [hne] at hd
    exact Option.some_ne_none _ hd.symm
  have hclear : Clear s.commandOffset m ↔ _ := ⟨fun h => h.word, fun h => ⟨hne, h⟩⟩
  rw [hclear]
  cases hp : afterBlank m with
  | none =>
    have hcommands : commandsOf m = bareCommands := by rw [commandsOf, hp]
    have hextract := extractParameters_of_none s.commandOffset hne hp
    have hd : dispatched s m = some (lookup bareCommands (seenWord s.commandOffset m), s) := by
      rw [dispatched, hextract, of_bare]
      rfl
    rw [dispatches_iff hd bareCommands_ne (by rw [hcommands])]
    refine or_congr_right' fun hinside => ?_
    rw [hcommands] at hinside
    constructor
    · rintro ⟨hask, -⟩
      refine ⟨⟨_, hask⟩, ?_, fun h => absurd h Bool.false_ne_true⟩
      rw [AsksFor, hcommands] at hask
      exact eq_of_prefix_bare ⟨_, hask⟩ (seenWord_prefix_firstWord _ _) hinside
    · rintro ⟨⟨c, hask⟩, hseen, -⟩
      refine ⟨?_, fun p h => absurd (hp.symm.trans h) (Option.some_ne_none _).symm⟩
      rw [AsksFor, hcommands] at hask
      rwa [AsksFor, hcommands, hseen, lookup_of_mem_bare hask]
  | some p =>
    have hcommands : commandsOf m = parameterCommands p := by rw [commandsOf, hp]
    obtain ⟨hseen, p', hextract, hp'⟩ :=
      extractParameters_of_some s.commandOffset hp
    have hd : dispatched s m = some (lookup (parameterCommands p') (seenWord s.commandOffset m),
        { s with parameter := p' }) := by
      rw [dispatched, hextract, of_parameter, hseen]
      rfl
    rw [dispatches_iff hd (parameterCommands_ne p') (by
      rw [hcommands, NoneInside, NoneInside]
      simp only [parameterCommands, List.forall_mem_cons])]
    refine or_congr_right' fun _ => ?_
    constructor
    · rintro ⟨hask, hparameter⟩
      exact ⟨⟨_, hask⟩, hseen, fun _ => hp'.mp (hparameter p hp)⟩
    · rintro ⟨⟨c, hask⟩, -, hoffset⟩
      obtain rfl := hp'.mpr (hoffset rfl)
      refine ⟨?_, fun q hq => Option.some.inj (hp.symm.trans hq)⟩
      rw [AsksFor, hcommands] at hask
      rwa [AsksFor, hcommands, hseen, lookup_of_mem_parameter hask]

/-- **With the `commandOffset` that is the default** the parser sees all of the word. -/
theorem clear_one_iff :
    Clear 1 m ↔ m ≠ [] ∧ (NoneInside (commandsOf m) (firstWord m) ∨ ∃ c, AsksFor m c) := by
  have hseen : seenWord 1 m = firstWord m := by
    rw [seenWord]
    split
    · rfl
    · next h => rw [firstWord_of_not_mem (not_or.mp h).1, Nat.add_sub_cancel, List.take_length]
  constructor
  · rintro ⟨hne, hword⟩
    rw [hseen] at hword
    exact ⟨hne, hword.imp_right And.left⟩
  · rintro ⟨hne, hword⟩
    refine ⟨hne, ?_⟩
    rw [hseen]
    exact hword.imp_right fun hask => ⟨hask, rfl, fun _ => .inl le_rfl⟩

/-- A session that waits for a command. -/
def Session.parsing : Session :=
  { Session.new (fun _ => none) (text "r/") 1 (fun _ => none) [] with processState := .parse }

/-- **A word that merely contains the name of a command**: `false` lists the directory. -/
theorem not_dispatches_false : ¬ ∀ (os : Os) (s : Session) (m : Bytes), s.processState = .parse →
    Dispatches os s m := by
  intro hall
  have h := (hall .refusing .parsing (text "false") rfl).exact (.ls (text "./")) _ rfl (by decide)
  exact absurd h.1 (by
    rw [AsksFor]
    decide)

end Dispatch

end WebServer.Ftp
