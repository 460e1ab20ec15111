import WebServer.Http.HeadRequest

/-!
# Http/Client — reading the answers back

A client that knows which requests it has made reads the answers off the stream: lines up to an
empty one, and then as many bytes as they announce, or none behind a `HEAD`.  What it makes of the
first part of a stream, it makes of the whole of it (`readMessages_prefix`); answers that are
`Readable` it reads as they were meant (`readMessages_flatMap`).
-/

namespace WebServer.Http

/-- **An answer, as a client reads it.** -/
structure Message where
  lines : List Bytes
  body : Bytes

/-! ## The client -/

/-- The lines up to an empty one, and what follows it; `line` has been read of the first. -/
def readLines (line : Bytes) : Bytes → Option (List Bytes × Bytes)
  | [] => none
  | [_] => none
  | c :: d :: s =>
    if c = Chr.cr ∧ d = Chr.lf then
      if line = [] then some ([], s) else (readLines [] s).map fun r => (line :: r.1, r.2)
    else readLines (line ++ [c]) (d :: s)

/-- The name of the field that announces the length of a body. -/
abbrev lengthField : Bytes := text "Content-Length: "

/-- The length that header lines announce. -/
def announced (lines : List Bytes) : Option ℕ :=
  (lines.find? lengthField.isPrefixOf).map fun l => digitsValue (l.drop lengthField.length)

/-- The body of the answer to a request, behind its header lines. -/
def readBody (method : RequestMethod) (lines : List Bytes) (s : Bytes) :
    Option (Message × Bytes) :=
  if method = .head then some (⟨lines, []⟩, s)
  else (announced lines).bind fun n =>
    if n ≤ s.length then some (⟨lines, s.take n⟩, s.drop n) else none

/-- **The answer to one request**, and what follows it. -/
def readMessage (method : RequestMethod) (s : Bytes) : Option (Message × Bytes) :=
  (readLines [] s).bind fun r => readBody method r.1 r.2

/-- **The answers to requests**, as far as the bytes go. -/
def readMessages : List RequestMethod → Bytes → List Message
  | [], _ => []
  | method :: methods, s =>
    match readMessage method s with
    | none => []
    | some (m, s) => m :: readMessages methods s

/-! ## More bytes -/

theorem readLines_append {line s t : Bytes} {r : List Bytes × Bytes}
    (h : readLines line s = some r) : readLines line (s ++ t) = some (r.1, r.2 ++ t) := by
  induction line, s using readLines.induct generalizing r with
  | case1 => exact absurd h (Option.some_ne_none _).symm
  | case2 => exact absurd h (Option.some_ne_none _).symm
  | case3 c d s hend =>
    rw [readLines, if_pos hend, if_pos rfl] at h
    obtain rfl := Option.some.inj h
    rw [List.cons_append, List.cons_append, readLines, if_pos hend, if_pos rfl]
  | case4 line c d s hend hne ih =>
    rw [readLines, if_pos hend, if_neg hne] at h
    obtain ⟨r', hr, rfl⟩ := Option.map_eq_some_iff.mp h
    rw [List.cons_append, List.cons_append, readLines, if_pos hend, if_neg hne, ih hr]
    rfl
  | case5 line c d s hend ih =>
    rw [readLines, if_neg hend] at h
    rw [List.cons_append, List.cons_append, readLines, if_neg hend]
    exact ih h

theorem readBody_append {method : RequestMethod} {lines : List Bytes} {s t : Bytes}
    {r : Message × Bytes} (h : readBody method lines s = some r) :
    readBody method lines (s ++ t) = some (r.1, r.2 ++ t) := by
  rw [readBody] at h ⊢
  split at h
  · next hm =>
    obtain rfl := Option.some.inj h
    rw [if_pos hm]
  · next hm =>
    obtain ⟨n, hn, h⟩ := Option.bind_eq_some_iff.mp h
    split at h
    · next hle =>
      obtain rfl := Option.some.inj h
      have hle' : n ≤ (s ++ t).length := by
        rw [List.length_append]
        omega
      rw [if_neg hm, hn, Option.bind_some, if_pos hle', List.take_append_of_le_length hle,
        List.drop_append_of_le_length hle]
    · exact absurd h (Option.some_ne_none _).symm

/-- **What is read of a stream is read of a longer one.** -/
theorem readMessage_append {method : RequestMethod} {s t : Bytes} {r : Message × Bytes}
    (h : readMessage method s = some r) : readMessage method (s ++ t) = some (r.1, r.2 ++ t) := by
  obtain ⟨l, hl, hb⟩ := Option.bind_eq_some_iff.mp h
  rw [readMessage, readLines_append hl, Option.bind_some]
  exact readBody_append hb

theorem readMessages_prefix {methods : List RequestMethod} {s t : Bytes} (h : s <+: t) :
    readMessages methods s <+: readMessages methods t := by
  obtain ⟨u, rfl⟩ := h
  induction methods generalizing s with
  | nil => exact List.prefix_refl _
  | cons method methods ih =>
    rw [readMessages]
    rcases hm : readMessage method s with _ | ⟨m, s'⟩
    · exact List.nil_prefix
    · rw [readMessages, readMessage_append hm]
      exact (List.prefix_cons_inj m).mpr ih

/-! ## Answers that can be read -/

/-- **An answer that the client reads** as these lines and this body. -/
structure Readable (a : Answer) (m : Message) : Prop where
  response : a.response = block m.lines ++ m.body
  isLine (l : Bytes) : l ∈ m.lines → IsLine l
  body : if a.method = .head then m.body = [] else announced m.lines = some m.body.length

theorem readLines_line {l : Bytes} (hl : Chr.cr ∉ l) (line s : Bytes) :
    readLines line (l ++ (crlf ++ s)) = readLines (line ++ l) (crlf ++ s) := by
  induction l generalizing line with
  | nil => rw [List.nil_append, List.append_nil]
  | cons c l ih =>
    obtain ⟨hc, hl⟩ := not_or.mp fun h => hl (List.mem_cons.mpr h)
    obtain ⟨d, s', hs⟩ : ∃ d s', l ++ (crlf ++ s) = d :: s' := by
      cases l <;> exact ⟨_, _, rfl⟩
    rw [List.cons_append, hs, readLines, if_neg fun h => hc h.1.symm, ← hs, ih hl,
      List.append_assoc, List.singleton_append]

/-- **A block is read as its lines.** -/
theorem readLines_block {ls : List Bytes} (h : ∀ l ∈ ls, IsLine l) (s : Bytes) :
    readLines [] (block ls ++ s) = some (ls, s) := by
  induction ls with
  | nil => rfl
  | cons l ls ih =>
    obtain ⟨⟨hne, hcr⟩, hls⟩ := List.forall_mem_cons.mp h
    rw [block_cons, List.append_assoc, List.append_assoc, readLines_line hcr, List.nil_append]
    change (if Chr.cr = Chr.cr ∧ Chr.lf = Chr.lf then
      if l = [] then some ([], block ls ++ s)
      else (readLines [] (block ls ++ s)).map fun r => (l :: r.1, r.2)
      else readLines (l ++ [Chr.cr]) (Chr.lf :: (block ls ++ s))) = _
    rw [if_pos ⟨rfl, rfl⟩, if_neg hne, ih hls]
    rfl

theorem Readable.readMessage {a : Answer} {m : Message} (h : Readable a m) (s : Bytes) :
    readMessage a.method (a.response ++ s) = some (m, s) := by
  obtain ⟨hresponse, hline, hbody⟩ := h
  obtain ⟨lines, body⟩ := m
  rw [Http.readMessage, hresponse, List.append_assoc, readLines_block hline, Option.bind_some,
    readBody]
  split
  · next hm =>
    rw [if_pos hm] at hbody
    obtain rfl : body = [] := hbody
    rfl
  · next hm =>
    rw [if_neg hm] at hbody
    have hle : body.length ≤ (body ++ s).length := by
      rw [List.length_append]
      omega
    rw [hbody, Option.bind_some, if_pos hle, List.take_left, List.drop_left]

/-- **Answers are read one after the other.** -/
theorem readMessages_flatMap {as : List Answer} {ms : List Message}
    (h : List.Forall₂ Readable as ms) (methods : List RequestMethod) (s : Bytes) :
    readMessages (as.map (·.method) ++ methods) (as.flatMap (·.response) ++ s)
      = ms ++ readMessages methods s := by
  induction h with
  | nil => rfl
  | @cons a m as ms ham _ ih =>
    rw [List.map_cons, List.cons_append, List.flatMap_cons, List.append_assoc, readMessages,
      ham.readMessage]
    exact congrArg (m :: ·) ih

end WebServer.Http
