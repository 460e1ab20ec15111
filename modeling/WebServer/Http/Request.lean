import WebServer.Http.HeaderLines

/-!
# Http/Request — well-formed requests, and how their first line is read

A request is a line, header fields and an empty line.  `ParseRequestLine` looks for the words `GET`,
`POST` and `HEAD` in this order and anywhere in the line, so the path of a `HEAD` can name another
method; `readRequestLine_line` says which lines it takes.  It never takes a part of a line
(`readRequestLine_part`): the version must have three characters after the last slash.
-/

namespace WebServer.Http

/-! ## Well-formed requests -/

/-- The word for a method. -/
def methodWord : RequestMethod → Bytes
  | .get => text "GET"
  | .post => text "POST"
  | .head => text "HEAD"

/-- The number of a version. -/
def versionText : HttpVersion → Bytes
  | .http10 => text "1.0"
  | .http11 => text "1.1"

/-- **A well-formed `GET` or `HEAD`**, with at least one header field; a value may be empty. -/
structure Request where
  method : RequestMethod
  path : Bytes
  version : HttpVersion
  headers : List Field
  method_ne : method ≠ .post
  headers_ne : headers ≠ []
  plain : ∀ f ∈ headers, f.Plain
  path_ok : ∀ b ∈ path, b ≠ Chr.space ∧ b ≠ Chr.cr ∧ b ≠ Chr.lf

namespace Request

/-- The request line. -/
def line (r : Request) : Bytes :=
  methodWord r.method ++ Chr.space :: Chr.slash :: (r.path ++ Chr.space ::
    (text "HTTP" ++ Chr.slash :: versionText r.version))

/-- The header lines and the empty line. -/
def fieldBytes (r : Request) : Bytes := headerBlock r.headers

/-- **The bytes of a request.** -/
def bytes (r : Request) : Bytes := r.line ++ (crlf ++ r.fieldBytes)

/-- A request line is one line. -/
theorem line_ok (r : Request) : ∀ b ∈ r.line, b ≠ Chr.cr ∧ b ≠ Chr.lf := by
  have hword : ∀ m, ∀ b ∈ methodWord m, b ≠ Chr.cr ∧ b ≠ Chr.lf := by
    intro m
    cases m <;> decide +kernel
  have hversion : ∀ v, ∀ b ∈ versionText v, b ≠ Chr.cr ∧ b ≠ Chr.lf := by
    intro v
    cases v <;> decide +kernel
  have hhttp : ∀ b ∈ text "HTTP", b ≠ Chr.cr ∧ b ≠ Chr.lf := by decide +kernel
  intro b h
  rw [line, List.mem_append, List.mem_cons, List.mem_cons, List.mem_append, List.mem_cons,
    List.mem_append, List.mem_cons] at h
  obtain h | rfl | rfl | h | rfl | h | rfl | h := h
  · exact hword _ b h
  · decide
  · decide
  · exact (r.path_ok b h).2
  · decide
  · exact hhttp b h
  · decide
  · exact hversion _ b h

theorem cr_notMem_line (r : Request) : Chr.cr ∉ r.line := fun h => (r.line_ok _ h).1 rfl

theorem lf_notMem_line (r : Request) : Chr.lf ∉ r.line := fun h => (r.line_ok _ h).2 rfl

end Request

/-! ## The first line of the buffer -/

/-- The request line ends at the first CR. -/
theorem requestLineOf_append {l : Bytes} (hl : Chr.cr ∉ l) (x : Bytes) :
    requestLineOf (l ++ Chr.cr :: x) = l := by
  have h := findChar_append (c := Chr.cr) [] hl x
  rw [List.nil_append, List.length_nil, Nat.zero_add] at h
  rw [requestLineOf, h, substr, List.drop_zero, List.take_left]

theorem afterRequestLine_append {l : Bytes} (hl : Chr.cr ∉ l) (x : Bytes) :
    afterRequestLine (l ++ Chr.cr :: x) = x := by
  have h := findChar_append (c := Chr.cr) [] hl x
  rw [List.nil_append, List.length_nil, Nat.zero_add] at h
  have hdrop : (l ++ Chr.cr :: x).drop (l.length + 1) = x := by
    rw [List.append_cons, List.drop_left' (by simp)]
  rw [afterRequestLine, h]
  simp only [StrPos.succ, substr, hdrop, List.length_append, List.length_cons]
  split
  · rfl
  · exact (List.length_eq_zero_iff.mp (by omega)).symm

/-- Without a CR everything is taken for the line. -/
theorem requestLineOf_open {l : Bytes} (hl : Chr.cr ∉ l) : requestLineOf l = l := by
  have h := findChar_append_none (c := Chr.cr) [] hl
  rw [List.nil_append, List.length_nil] at h
  rw [requestLineOf, h, substr, List.drop_zero]

/-- …and nothing of it is taken out. -/
theorem afterRequestLine_open {l : Bytes} (hl : Chr.cr ∉ l) : afterRequestLine l = l := by
  have h := findChar_append_none (c := Chr.cr) [] hl
  rw [List.nil_append, List.length_nil] at h
  rw [afterRequestLine, h]
  simp only [StrPos.succ, substr, List.drop_zero]
  split
  · rfl
  · exact (List.length_eq_zero_iff.mp (by omega)).symm

/-! ## What a request line is read as -/

/-- The method that a path names, and where; `GET` is looked for before `POST`. -/
def methodInPath (path : Bytes) : Option (RequestMethod × ℕ) :=
  match findStr (text "GET") path with
  | some p => some (.get, p)
  | none => (findStr (text "POST") path).map fun p => (.post, p)

theorem methodInPath_le {path : Bytes} {m : RequestMethod} {p : ℕ}
    (h : methodInPath path = some (m, p)) : p ≤ path.length := by
  rw [methodInPath] at h
  split at h
  · next q hq =>
    obtain ⟨-, rfl⟩ := Prod.mk.inj (Option.some.inj h)
    exact findStr_le hq
  · obtain ⟨q, hq, he⟩ := Option.map_eq_some_iff.mp h
    obtain ⟨-, rfl⟩ := Prod.mk.inj he
    exact findStr_le hq

namespace Request

/-- The method a request is read as: a `HEAD` is taken for the method its path names. -/
def readMethod (r : Request) : RequestMethod :=
  if r.method = .get then .get else ((methodInPath r.path).map Prod.fst).getD .head

/-- **A request whose line the parser refuses**: a `HEAD` whose path names another method, without a
slash after that name. -/
def Refused (r : Request) : Prop :=
  r.method = .head ∧ ∃ m p, methodInPath r.path = some (m, p) ∧ Chr.slash ∉ r.path.drop p

/-- The end of a request line. -/
abbrev lineEnd (v : HttpVersion) : Bytes :=
  Chr.space :: (text "HTTP" ++ Chr.slash :: versionText v)

/-- A word of capital letters is found in the line of a `HEAD` where it stands in the path. -/
theorem findStr_headLine {b : UInt8} {pat : Bytes} (hb : b ∉ text "HEAD /")
    (hspace : Chr.space ∉ b :: pat) {v : HttpVersion} (hend : findStr (b :: pat) (lineEnd v) = none)
    (path : Bytes) : findStr (b :: pat) (text "HEAD /" ++ (path ++ lineEnd v))
      = (findStr (b :: pat) path).map (· + 6) := by
  rw [findStr_skip hb, findStr_append hspace (List.cons_ne_nil _ _) hend]
  rfl

theorem line_head {r : Request} (hm : r.method = .head) :
    r.line = text "HEAD /" ++ (r.path ++ lineEnd r.version) := by
  have hword : text "HEAD /" = text "HEAD" ++ [Chr.space, Chr.slash] := by decide
  rw [line, hm, methodWord, hword]
  simp

/-- The method that the line of a `HEAD` is read as, and where the file name is looked for. -/
theorem lineMethod_head {r : Request} (hm : r.method = .head) : lineMethod r.line =
    some (((methodInPath r.path).map fun x => (x.1, x.2 + 6)).getD (.head, 0)) := by
  have hget : findStr (text "GET") r.line = (findStr (text "GET") r.path).map (· + 6) := by
    rw [line_head hm]
    refine findStr_headLine (by decide) (by decide) ?_ _
    cases r.version <;> decide
  have hpost : findStr (text "POST") r.line = (findStr (text "POST") r.path).map (· + 6) := by
    rw [line_head hm]
    refine findStr_headLine (by decide) (by decide) ?_ _
    cases r.version <;> decide
  have hhead : findStr (text "HEAD") r.line = some 0 := by
    rw [line_head hm]
    rfl
  rw [lineMethod, hget, hpost, hhead, methodInPath]
  cases findStr (text "GET") r.path with
  | some p => rfl
  | none => cases findStr (text "POST") r.path <;> rfl

theorem lineMethod_get {r : Request} (hm : r.method = .get) :
    lineMethod r.line = some (.get, 0) := by
  have hget : findStr (text "GET") r.line = some 0 := by
    rw [line, hm]
    rfl
  rw [lineMethod, hget]

/-- The version is found after the last of two slashes with a blank between them. -/
theorem lineVersion_line {line a u x : Bytes} {v : HttpVersion} (hu : Chr.slash ∉ u)
    (hx : Chr.space ∉ x) (hline : line = a ++ (u ++ Chr.slash :: (x ++ lineEnd v))) :
    lineVersion line (findChar line Chr.slash (findChar line Chr.space
      (findChar line Chr.slash (some a.length)))) = some v := by
  have hfirst : findChar line Chr.slash (some a.length) = some (a ++ u).length := by
    rw [hline, findChar_append a hu, List.length_append]
  have hspace : findChar line Chr.space (some (a ++ u).length)
      = some (a ++ u ++ Chr.slash :: x).length := by
    have hcut : line = (a ++ u) ++ ((Chr.slash :: x) ++ lineEnd v) := by
      rw [hline, List.append_assoc]
      rfl
    rw [hcut, lineEnd, findChar_append _ fun h => ?_, ← List.length_append]
    exact (List.mem_cons.mp h).elim (by decide) hx
  have hcut : line = (a ++ u ++ Chr.slash :: x) ++
      ((Chr.space :: text "HTTP") ++ Chr.slash :: versionText v) := by
    rw [hline]
    simp [lineEnd]
  have hlast : findChar line Chr.slash (some (a ++ u ++ Chr.slash :: x).length)
      = some (a ++ u ++ Chr.slash :: x ++ Chr.space :: text "HTTP").length := by
    rw [hcut, findChar_append _ (by decide), ← List.length_append]
  have hsplit : line = (a ++ u ++ Chr.slash :: x ++ Chr.space :: text "HTTP") ++ [Chr.slash] ++
      versionText v := by
    rw [hcut]
    simp
  have hlen : (versionText v).length = 3 := by cases v <;> rfl
  rw [hfirst, hspace, hlast, lineVersion, if_neg, substr, StrPos.succ, hsplit,
    List.drop_left' (by rw [List.length_append, List.length_singleton]),
    List.take_of_length_le hlen.le]
  · cases v
    · rfl
    · rfl
  · rw [hsplit, StrPos.before, List.length_append, List.length_append, hlen, List.length_singleton]
    omega

/-- Without a slash after the start but the last one, no version is found. -/
theorem lineVersion_refused {line a u : Bytes} {v : HttpVersion} (hu : Chr.slash ∉ u)
    (hline : line = a ++ (u ++ lineEnd v)) (hstart : ∀ w, line.take 3 ≠ versionText w) :
    lineVersion line (findChar line Chr.slash (findChar line Chr.space
      (findChar line Chr.slash (some a.length)))) = none := by
  have hfirst : findChar line Chr.slash (some a.length)
      = some (a ++ u ++ Chr.space :: text "HTTP").length := by
    have hcut : line = a ++ ((u ++ Chr.space :: text "HTTP") ++ Chr.slash :: versionText v) := by
      rw [hline]
      simp [lineEnd]
    rw [hcut, findChar_append a fun h => ?_, ← List.length_append, List.append_assoc]
    exact (List.mem_append.mp h).elim hu (by decide)
  have hspace : findChar line Chr.space (some (a ++ u ++ Chr.space :: text "HTTP").length)
      = none := by
    have hcut : line = (a ++ u ++ Chr.space :: text "HTTP") ++ Chr.slash :: versionText v := by
      rw [hline]
      simp [lineEnd]
    rw [hcut, findChar_append_none]
    cases v <;> decide
  rw [hfirst, hspace, findChar, lineVersion]
  split
  · rfl
  · simp only [substr, StrPos.succ, List.drop_zero]
    exact (if_neg (hstart .http10)).trans (if_neg (hstart .http11))

/-- The slash before the file name, in a line that is not refused. -/
theorem exists_fileName_slash {r : Request} (hr : ¬ r.Refused) : ∃ a u x,
    lineMethod r.line = some (r.readMethod, a.length) ∧ Chr.slash ∉ u ∧ Chr.space ∉ x ∧
      r.line = a ++ (u ++ Chr.slash :: (x ++ lineEnd r.version)) := by
  have hpath : Chr.space ∉ r.path := fun h => (r.path_ok _ h).1 rfl
  have hwhole : r.line = [] ++ ((methodWord r.method ++ [Chr.space]) ++ Chr.slash ::
      (r.path ++ lineEnd r.version)) := by
    rw [line]
    simp [lineEnd]
  have hword : Chr.slash ∉ methodWord r.method ++ [Chr.space] := by
    cases r.method <;> decide
  cases hm : r.method with
  | get =>
    refine ⟨[], _, _, ?_, hword, hpath, hwhole⟩
    rw [lineMethod_get hm, readMethod, if_pos hm]
    rfl
  | post => exact absurd hm r.method_ne
  | head =>
    have hne : r.method ≠ .get := by
      rw [hm]
      decide
    cases hin : methodInPath r.path with
    | none =>
      refine ⟨[], _, _, ?_, hword, hpath, hwhole⟩
      rw [lineMethod_head hm, readMethod, if_neg hne, hin]
      rfl
    | some y =>
      have hslash : Chr.slash ∈ r.path.drop y.2 := by
        by_contra h
        exact hr ⟨hm, y.1, y.2, hin, h⟩
      obtain ⟨u, x, hdrop, hu⟩ := List.eq_append_cons_of_mem hslash
      have hx : Chr.space ∉ x := fun h =>
        hpath (List.mem_of_mem_drop (hdrop ▸ List.mem_append_right u (List.mem_cons_of_mem _ h)))
      refine ⟨text "HEAD /" ++ r.path.take y.2, u, x, ?_, hu, hx, ?_⟩
      · have hle : y.2 ≤ r.path.length := methodInPath_le hin
        rw [lineMethod_head hm, readMethod, if_neg hne, hin, List.length_append, List.length_take,
          Nat.min_eq_left hle, Nat.add_comm]
        rfl
      · rw [line_head hm, ← List.cons_append, ← List.append_assoc u, ← hdrop, List.append_assoc,
          ← List.append_assoc (r.path.take y.2), List.take_append_drop]

/-- **What a line that is not refused is read as.** -/
theorem readRequestLine_line {r : Request} (hr : ¬ r.Refused) : ∃ fileName, ∀ c,
    readRequestLine r.line c =
      (.success, { c with
        method := r.readMethod, fileName := fileName, version := r.version }) := by
  obtain ⟨a, u, x, hmethod, hu, hx, hline⟩ := exists_fileName_slash hr
  refine ⟨lineFileName r.line (findChar r.line Chr.slash (some a.length))
    (findChar r.line Chr.space (findChar r.line Chr.slash (some a.length))), fun c => ?_⟩
  rw [readRequestLine, hmethod]
  simp only [lineVersion_line hu hx hline]

/-- **A refused line** is answered with an error. -/
theorem readRequestLine_refused {r : Request} (hr : r.Refused) (c : HttpConnection) :
    (readRequestLine r.line c).1 = .error := by
  obtain ⟨hm, m, p, hin, hslash⟩ := hr
  have hle := methodInPath_le hin
  have hstart : r.line.take 3 = text "HEA" := by
    rw [line_head hm]
    rfl
  have hline : r.line = (text "HEAD /" ++ r.path.take p) ++
    (r.path.drop p ++ lineEnd r.version) := by
    rw [line_head hm, List.append_assoc, ← List.append_assoc (r.path.take p),
      List.take_append_drop]
  have hlen : (text "HEAD /" ++ r.path.take p).length = p + 6 := by
    rw [List.length_append, List.length_take, Nat.min_eq_left hle, Nat.add_comm]
    rfl
  have hversion := lineVersion_refused hslash hline fun w => by
    rw [hstart]
    cases w <;> decide
  rw [hlen] at hversion
  rw [readRequestLine, lineMethod_head hm, hin]
  simp only [Option.map_some, Option.getD_some, hversion]

/-! ## A part of a request line -/

/-- A version that is found stands after a slash, with three characters to come. -/
theorem lineVersion_some {l : Bytes} {pos : StrPos} {v : HttpVersion}
    (h : lineVersion l pos = some v) (hstart : ∀ w, l.take 3 ≠ versionText w) :
    ∃ q, pos = some q ∧ q + 3 < l.length := by
  rw [lineVersion] at h
  split at h
  · exact absurd h (by simp)
  · next hlong =>
    cases pos with
    | some q =>
      rw [StrPos.before] at hlong
      exact ⟨q, rfl, by omega⟩
    | none =>
      simp only [substr, StrPos.succ, List.drop_zero] at h
      split at h
      · next e => exact absurd e (hstart .http10)
      · split at h
        · next e => exact absurd e (hstart .http11)
        · exact absurd h (by simp)

/-- **A part of a request line is never taken for a request line.** -/
theorem readRequestLine_part {r : Request} {l x : Bytes} (h : l ++ x = r.line) (hx : x ≠ [])
    (c : HttpConnection) : (readRequestLine l c).1 = .error := by
  have hstart : ∀ w, l.take 3 ≠ versionText w := by
    intro w hw
    have hdigit : r.line.head? = some 49 := by
      rw [← h, ← List.take_append_drop 3 l, hw]
      cases w <;> rfl
    have hletter : r.line.head? ≠ some 49 := by
      rw [line]
      cases r.method
      · exact fun e => absurd (Option.some.inj e) (by decide)
      · exact fun e => absurd (Option.some.inj e) (by decide)
      · exact fun e => absurd (Option.some.inj e) (by decide)
    exact hletter hdigit
  rw [readRequestLine]
  split
  · rfl
  · simp only
    split
    · rfl
    · next m start _ v hv =>
      obtain ⟨q, hq, hlt⟩ := lineVersion_some hv hstart
      obtain ⟨q₂, hq₂, hle₂, hd⟩ := findChar_some hq
      obtain ⟨q₁, hq₁, hle₁, hd₂⟩ := findChar_some hq₂
      obtain ⟨-, -, -, hd₁⟩ := findChar_some hq₁
      have hne₁ : q₁ ≠ q₂ := by
        rintro rfl
        exact absurd (List.cons.inj (hd₁.symm.trans hd₂)).1 (by decide)
      have hne₂ : q₂ ≠ q := by
        rintro rfl
        exact absurd (List.cons.inj (hd₂.symm.trans hd)).1 (by decide)
      have hword : Chr.slash ∉ methodWord r.method ++ [Chr.space] := by
        cases r.method <;> decide
      have hwhole : l.drop 0 ++ x <:+ (methodWord r.method ++ [Chr.space]) ++ Chr.slash ::
          (r.path ++ lineEnd r.version) := by
        rw [List.drop_zero, h, line]
        simp [lineEnd]
      have h₁ := drop_suffix_next (Nat.zero_le q₁) hd₁ hword hwhole
      have h₂ := drop_suffix_next (by omega) hd₂ (fun e => (r.path_ok _ e).1 rfl) h₁
      have h₃ := drop_suffix_next (by omega) hd (by decide) h₂
      have hlen := h₃.length_le
      have hlast : (versionText r.version).length = 3 := by cases r.version <;> rfl
      rw [List.length_append, List.length_drop, hlast] at hlen
      exact absurd (List.length_eq_zero_iff.mp (by omega)) hx

end Request

end WebServer.Http
