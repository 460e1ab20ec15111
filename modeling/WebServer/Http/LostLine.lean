import WebServer.Event.OutputOrder
import WebServer.Http.Segmentation

/-!
# Http/LostLine — a read that ends inside a header line

A connection whose read ends inside a header line, or between two of them, has lost where the line
starts.  Each further read fails, records a name that no field has, or waits on
(`serveRead_lost`), and it does not wait past the empty line (`serve_lost`).
-/

namespace WebServer.Http

open Event Utility

/-! ## What was answered stays answered -/

section Answered

variable {κ : Type*}

theorem answers_append {h h' : Handler κ} {e : List OutEvent} (hl : h'.log = h.log ++ e) :
    h'.answers = h.answers ++ e.filterMap fun | .produced a => some a | .accepted _ => none := by
  rw [Handler.answers, hl, List.filterMap_append]
  rfl

theorem handleWrite_answers (h : Handler κ) : (handleWrite h).answers = h.answers := by
  have hsend : ∀ g : Handler κ, g.log = h.send.log → (askToWrite g).answers = h.answers := by
    intro g hg
    have hl : (askToWrite g).log = h.log ++
        [.accepted (Utility.write h.writes h.conn.writeBuffer).accepted] := by
      rw [askToWrite_log, hg]
      rfl
    rw [answers_append hl]
    exact List.append_nil _
  unfold handleWrite
  split
  · split
    · exact hsend _ rfl
    · exact hsend _ rfl
  · rfl

theorem flush_answers (h : Handler κ) : (flush h).answers = h.answers := by
  unfold flush
  split
  · exact handleWrite_answers h
  · rfl

theorem handleReadTail_answers (h : Handler κ) : (handleReadTail h).1.answers = h.answers := by
  unfold handleReadTail conclude
  split
  · rfl
  · split
    · exact flush_answers h
    · split
      · exact flush_answers h
      · exact flush_answers h

/-- An error answer is the last one. -/
theorem failWith_answers (h : Handler κ) (n : ℕ) (m : Bytes) : ∃ a,
    (failWith h n m).answers = h.answers ++ [a] ∧ a.kind = .error ∧
      a.response = errorResponse n m := by
  have hl : (failWith h n m).log = h.log ++ [.produced ⟨.error, h.conn.method, h.conn.fileName,
      h.conn.requestHeaders, errorResponse n m⟩, .accepted _] := List.append_assoc _ _ _
  exact ⟨_, answers_append hl, rfl, rfl⟩

theorem failWith_requestHeaders (h : Handler κ) (n : ℕ) (m : Bytes) :
    (failWith h n m).conn.requestHeaders = h.conn.requestHeaders := rfl

/-- A request that is not finished is not reset. -/
theorem handleReadTail_unfinished {h : Handler κ} (hp : h.conn.processState ≠ .finish) :
    (handleReadTail h).2 = false ∧
      (handleReadTail h).1.conn.requestHeaders = h.conn.requestHeaders := by
  obtain ⟨w, e, hc⟩ := flush_conn h
  unfold handleReadTail conclude
  split
  · exact ⟨rfl, rfl⟩
  · rw [if_neg (by rw [hc]; exact fun h => hp h.2)]
    split
    · exact ⟨rfl, by rw [Handler.setEvents_conn, hc]⟩
    · exact ⟨rfl, by rw [hc]⟩

/-- What handling input puts out comes behind what was put out before. -/
theorem mem_answers_of_output {h h' : Handler κ} (o : Output h h') {a : Answer}
    (ha : a ∈ h.answers) : a ∈ h'.answers := by
  have hex : ∃ es, h'.log = h.log ++ es := by
    cases o with
    | silent hl _ _ => exact ⟨[], by rw [hl, List.append_nil]⟩
    | page _ hl _ _ => exact ⟨_, hl⟩
    | echo _ hl _ _ => exact ⟨_, hl⟩
    | refused _ _ hl _ => exact ⟨_, hl⟩
    | broken hl _ => exact ⟨[], by rw [hl, List.append_nil]⟩
  obtain ⟨es, hl⟩ := hex
  rw [answers_append hl]
  exact List.mem_append_left _ ha

variable [PageCache κ] (files : FileSystem)

theorem mem_answers_handleReadPass {h : Handler κ} {a : Answer} (ha : a ∈ h.answers) :
    a ∈ (handleReadPass files h).1.answers := by
  rw [handleReadPass, handleReadTail_answers]
  exact mem_answers_of_output (handleReadBody_output files h) ha

/-- **An answer of the first pass is an answer of the handler.** -/
theorem mem_answers_handleRead {h : Handler κ} {a : Answer}
    (ha : a ∈ (handleReadBody files h).answers) : a ∈ (handleRead files h).answers := by
  have hpass : a ∈ (handleReadPass files h).1.answers := by
    rw [handleReadPass, handleReadTail_answers]
    exact ha
  rw [handleRead_eq]
  split
  · exact handleRead_invariant files (I := fun h => a ∈ h.answers)
      (fun h => mem_answers_handleReadPass files) hpass
  · exact hpass

/-! ## What a finished request was built from -/

/-- **What a successful answer adds**: one response that is no error. -/
theorem answers_of_success {h : Handler κ} (hs : (buildResponse files h).1 = .success) : ∃ a,
    (buildResponse files h).2.answers = h.answers ++ [a] ∧ a.kind ≠ .error ∧
      a.requestHeaders = h.conn.requestHeaders ∧ (buildResponse files h).2.fault = h.fault := by
  have ha := buildResponse_answered files h
  generalize buildResponse files h = r at hs ha ⊢
  cases ha with
  | page hf hb hl hw hx => exact ⟨_, answers_append hl, AnswerKind.noConfusion, rfl, hx⟩
  | echo hl hw hx => exact ⟨_, answers_append hl, AnswerKind.noConfusion, rfl, hx⟩
  | refused hk ha hl hx => exact absurd hs (by simp)
  | broken hl hx => exact absurd hs (by simp)

theorem responseStage_finish {h : Handler κ} (hp : h.conn.processState ≠ .finish)
    (hfin : (responseStage files h).conn.processState = .finish) :
    ∃ a ∈ (responseStage files h).answers, a.requestHeaders = h.conn.requestHeaders := by
  by_cases hs : h.conn.processState = .response
  · rw [responseStage_eq files hs] at hfin ⊢
    by_cases hb : (buildResponse files h).1 = .success
    · obtain ⟨a, ha, -, hm, -⟩ := answers_of_success files hb
      refine ⟨a, ?_, hm⟩
      change a ∈ (buildResponse files h).2.answers
      rw [ha]
      exact List.mem_append_right _ (List.mem_singleton_self _)
    · rw [Handler.update_conn, if_neg hb] at hfin
      have := (sameInput_buildResponse files h).processState
      exact absurd (this.symm.trans hfin) hp
  · rw [responseStage, if_neg hs] at hfin
    exact absurd hfin hp

/-- **A finished request was answered from its fields.** -/
theorem bodyStage_finish {h : Handler κ} (hp : h.conn.processState ≠ .finish)
    (hfin : (bodyStage files h).conn.processState = .finish) :
    ∃ a ∈ (bodyStage files h).answers, a.requestHeaders = h.conn.requestHeaders := by
  rw [bodyStage] at hfin ⊢
  by_cases hs : h.conn.processState = .recvBody
  · rw [if_pos hs] at hfin ⊢
    cases hv : h.conn.requestHeaders (text "Content-length") with
    | none =>
      rw [hv] at hfin
      exact absurd hfin hp
    | some value =>
      rw [hv] at hfin
      dsimp only at hfin ⊢
      cases hn : stoi value with
      | none =>
        rw [hn] at hfin
        exact absurd hfin hp
      | some contentLength =>
        rw [hn] at hfin
        dsimp only at hfin ⊢
        by_cases hlen : (h.conn.readBuffer.length : ℤ) < contentLength % 2 ^ 64
        · rw [if_pos hlen] at hfin
          exact absurd hfin hp
        · rw [if_neg hlen] at hfin ⊢
          exact responseStage_finish files (h := h.update (·.enter .response))
            (show ProcessState.response ≠ .finish by decide) hfin
  · rw [if_neg hs] at hfin ⊢
    exact responseStage_finish files hp hfin

end Answered

/-! ## A line whose start was lost -/

/-- The answer to a request that is refused. -/
def badRequest : Bytes := errorResponse 400 (text "Bad Request")

section Lost

variable {κ : Type*}

/-- **A name that no field has was recorded**, on the connection or for an answer. -/
def Spoiled (h : Handler κ) : Prop :=
  Tainted h.conn.requestHeaders ∨ ∃ a ∈ h.answers, Tainted a.requestHeaders

/-- **An ending that no well-formed request has**, when it is taken and arrives in one read. -/
def Ruined (h : Handler κ) : Prop :=
  h.fault = some .undefinedBehaviour ∨ (∃ a ∈ h.answers,
    a.kind = .error ∧ a.response = badRequest) ∨
    Spoiled h

/-- A connection that waits for the rest of a line whose start it has lost. -/
structure Lost (h : Handler κ) : Prop where
  silent : Silent h
  processState : h.conn.processState = .parseHeaders
  broken : h.conn.Broken

/-- The line is still broken when more of it has arrived. -/
theorem HttpConnection.Broken.received {h : Handler κ} (hb : h.conn.Broken) (segment : Bytes) :
    ((h.feed segment).received segment).conn.Broken := by
  obtain hin | ⟨hlf, hd⟩ := hb
  · exact .inl hin
  · refine .inr ⟨hlf, ?_⟩
    change (h.conn.readBuffer ++ segment).head? = _
    rw [List.head?_append, hd, Option.some_or]

theorem ruined_failWith (h : Handler κ) :
    GivenUp (failWith h 400 (text "Bad Request")) ∧
      Ruined (failWith h 400 (text "Bad Request")) := by
  obtain ⟨a, ha, hk, hr⟩ := failWith_answers h 400 (text "Bad Request")
  refine ⟨.inl rfl, .inr (.inl ⟨a, ?_, hk, hr⟩)⟩
  rw [ha]
  exact List.mem_append_right _ (List.mem_singleton_self _)

variable [PageCache κ] (files : FileSystem)

theorem serveRead_givenUp {h : Handler κ} (hg : GivenUp h) (segment : Bytes) :
    serveRead files h segment = h := if_pos hg

theorem serve_givenUp {h : Handler κ} (hg : GivenUp h) : ∀ reads, serve files h reads = h
  | [] => rfl
  | segment :: reads => by
      rw [serve, List.foldl_cons, serveRead_givenUp files hg]
      exact serve_givenUp hg reads

/-- A header that ends with a name that no field has. -/
theorem AtHeader.spoiled {files : FileSystem} {g h : Handler κ} {c : HttpConnection}
    (a : AtHeader files g h) (hp : parseRequestHeader h.conn = (some .success, c))
    (ht : Tainted c.requestHeaders) : Spoiled (handleRead files g) := by
  have hne : bodyState c.method ≠ .finish := by
    unfold bodyState
    split <;> decide
  have hmap := (bodyStage_sameParse files
    (h.update fun _ => c.enter (bodyState c.method))).requestHeaders
  by_cases hfin : (bodyStage files (h.update fun _ =>
    c.enter (bodyState c.method))).conn.processState
      = .finish
  · obtain ⟨x, hx, hxm⟩ := bodyStage_finish files
      (h := h.update fun _ => c.enter (bodyState c.method))
      hne hfin
    rw [← a.success hp] at hx
    exact .inr ⟨x, mem_answers_handleRead files hx, hxm ▸ ht⟩
  · obtain ⟨hstop, htail⟩ := handleReadTail_unfinished hfin
    rw [← a.success hp] at hstop htail hmap
    rw [handleRead_of_stop files hstop]
    exact .inl (htail ▸ hmap ▸ ht)

/-- **One more read of a lost line**: the connection fails, a name that no field has is recorded, or
it waits on. -/
theorem serveRead_lost {h : Handler κ} (l : Lost h) (segment : Bytes) :
    (GivenUp (serveRead files h segment) ∧ Ruined (serveRead files h segment)) ∨
    Spoiled (serveRead files h segment) ∨
    (Lost (serveRead files h segment) ∧
      (serveRead files h segment).conn.readBuffer = h.conn.readBuffer ++ segment ∧
      ¬ Closed (h.conn.readBuffer ++ segment)) := by
  have a := atHeader_next files l.silent l.processState segment
  have hres := parseRequestHeader_resumed (l.broken.received segment)
  have hparsed := parsed_parseRequestHeader ((h.feed segment).received segment).conn
  rw [serveRead, if_neg l.silent.not_givenUp]
  generalize hp : parseRequestHeader ((h.feed segment).received segment).conn = x at hres hparsed
  cases hres with
  | undefined c =>
    rw [a.undefined hp]
    exact .inl ⟨.inr rfl, .inl rfl⟩
  | error c =>
    rw [a.error hp]
    exact .inl (ruined_failWith _)
  | tainted ht =>
    obtain ⟨state, c⟩ := x
    rcases state with _ | _ | _ | _
    · rw [a.undefined hp]
      exact .inr (.inl (.inl ht))
    · exact .inr (.inl (a.spoiled hp ht))
    · rw [a.wait hp]
      exact .inr (.inl (.inl ht))
    · rw [a.error hp]
      exact .inr (.inl (.inl ((failWith_requestHeaders _ _ _).symm ▸ ht)))
  | again hin hopen =>
    rw [a.wait hp]
    refine .inr (.inr ⟨⟨?_, l.processState, .inl hin⟩, rfl, hopen⟩)
    exact a.silent.update hparsed

/-- **A lost line is not found again**: when the header is over, the connection has failed or has
recorded a name that no field has, unless it has recorded one before. -/
theorem serve_lost : ∀ {reads : List Bytes} {h : Handler κ}, Lost h → reads ≠ [] →
    Closed (h.conn.readBuffer ++ reads.flatten) → Ruined (serve files h reads) ∨
      ∃ before after, before ++ after = reads ∧ after ≠ [] ∧ Spoiled (serve files h before)
  | [], _, _, hne, _ => absurd rfl hne
  | segment :: reads, h, l, _, hc => by
      obtain ⟨hg, hr⟩ | hs | ⟨l', hb, hopen⟩ := serveRead_lost files l segment
      · left
        have hstay : serve files h (segment :: reads) = serveRead files h segment :=
          serve_givenUp files hg reads
        rw [hstay]
        exact hr
      · cases reads with
        | nil => exact .inl (.inr (.inr hs))
        | cons next reads => exact .inr ⟨[segment], next :: reads, rfl, List.cons_ne_nil _ _, hs⟩
      · cases reads with
        | nil =>
          rw [List.flatten_cons, List.flatten_nil, List.append_nil] at hc
          exact absurd hc hopen
        | cons next reads =>
          rw [List.flatten_cons, ← List.append_assoc, ← hb] at hc
          obtain hr | ⟨before, after, rfl_, hne, hs⟩ := serve_lost l' (List.cons_ne_nil _ _) hc
          · exact .inl hr
          · exact .inr ⟨segment :: before, after, by rw [List.cons_append, rfl_], hne, hs⟩

end Lost

end WebServer.Http
