import PugTokens.Proofs.Command.Rows
import PugTokens.Proofs.Reading.Storing

namespace PugTokens.Command

/-! # What is printed about a document

A request prints all tokens of its document, since they come to an end and each is a part
of the text.  With the contexts asked for it stops only where too much is open to be
stored (`run_prints`).
-/

/-- A request for values that accepts anything accepts a kind of value. -/
theorem meets_acceptedKinds {string noScript : Bool}
    (filled : (acceptedKinds string noScript).isEmpty = false) :
    (acceptedKinds string noScript).meets Kind.value = true := by
  revert filled
  cases string <;> cases noScript <;> decide

theorem fromUTF8?_toUTF8 (text : String) : String.fromUTF8? text.toUTF8 = some text := by
  unfold String.fromUTF8?
  rw [String.toUTF8_eq_toByteArray, dif_pos text.isValidUTF8]
  rfl

theorem runWith_of_parse {parser : Parser} {arguments : List String} {request : Request}
    (parsed : parser arguments = .ok request) (document : Document) :
    runWith parser arguments document = request.report document := by
  rw [runWith, parsed]

theorem report_outline {request : Request} {path : String}
    (asked : request.task = .outline path) (source : String) :
    request.report (.contents source.toUTF8) =
      reportOutline source.toList request.showContext := by
  simp only [Request.report, asked, fromUTF8?_toUTF8]

theorem report_values {request : Request} {text : String} {string noScript : Bool}
    (asked : request.task = .values text string noScript)
    (filled : (acceptedKinds string noScript).isEmpty = false) (document : Document) :
    request.report document =
      reportValues text.toList (acceptedKinds string noScript) request.showContext := by
  simp only [Request.report, asked, filled, Bool.false_eq_true, if_false]

theorem exists_report {source : List Char} {answers : List (Token × Context)}
    {Fits : Context → Prop} (sound : ∀ answer ∈ answers, answer.1.span.Sound source)
    (fits : ∀ answer ∈ answers, answer.2.Storable ↔ Fits answer.2) (showContext : Bool) :
    ∃ report, reportTokens source showContext answers = .ok report ∧
      Prints source answers showContext report ∧
      ∀ answer ∈ answers, (∃ bytes, answer.2.encode = .ok bytes) ↔ Fits answer.2 := by
  obtain ⟨report, reported, prints⟩ := exists_reportTokens answers showContext
    fun answer member => (sound answer member).readable
  refine ⟨report, reported, prints, fun answer member => ?_⟩
  rw [Context.exists_encode_iff]
  exact fits answer member

theorem exists_reportOutline (source : List Char) (showContext : Bool) :
    ∃ tokens last report, Outline.all source = .ok (tokens, last) ∧
      last.next = .ok (none, last) ∧ reportOutline source showContext = .ok report ∧
      let answers := tokens.map fun (token, after) => (token, after.reading.context)
      Prints source answers showContext report ∧
        ∀ answer ∈ answers, (∃ bytes, answer.2.encode = .ok bytes) ↔ answer.2.LevelsFit := by
  obtain ⟨tokens, last, drained, ends, known⟩ := Outline.exists_all source
  let answers := tokens.map fun (token, after) => (token, after.reading.context)
  have known : ∀ answer ∈ answers, answer.1.span.Sound source ∧ answer.2.OnlyLevels :=
    List.forall_mem_map.mpr known
  obtain ⟨report, reported, prints⟩ := exists_report (fun answer member => (known answer member).1)
    (fun answer member => (known answer member).2.storable_iff) showContext
  refine ⟨tokens, last, report, drained, ends, ?_, prints⟩
  rw [reportOutline, drained]
  exact reported

theorem exists_reportValues (source : List Char) {valid : KindSet}
    (asked : valid.meets Kind.value = true) (showContext : Bool) :
    ∃ tokens last report, Values.all source valid = .ok (tokens, last) ∧
      last.next = .ok (none, last) ∧ reportValues source valid showContext = .ok report ∧
      let answers := tokens.map fun (token, after) => (token, after.reading.context)
      Prints source answers showContext report ∧
        ∀ answer ∈ answers, (∃ bytes, answer.2.encode = .ok bytes) ↔ answer.2.NestingFits := by
  obtain ⟨tokens, last, drained, ends, known⟩ := Values.exists_all source asked
  let answers := tokens.map fun (token, after) => (token, after.reading.context)
  have known : ∀ answer ∈ answers, answer.1.span.Sound source ∧ answer.2.NoLevels :=
    List.forall_mem_map.mpr known
  obtain ⟨report, reported, prints⟩ := exists_report (fun answer member => (known answer member).1)
    (fun answer member => (known answer member).2.storable_iff) showContext
  refine ⟨tokens, last, report, drained, ends, ?_, prints⟩
  rw [reportValues, drained]
  exact reported

/-- However a command line is read, for every source text the request prints a row for each
token, and it succeeds.  With the contexts asked for, each row also holds the bytes from which
the context behind its token is loaded, and the run fails without a row for the first token
behind which the context cannot be stored: in an outline, if there are too many levels or one
is too wide, and among values, if too many enclosures or ternaries are open. -/
theorem run_prints {parser : Parser} {arguments : List String} {request : Request}
    (parsed : parser arguments = .ok request) :
    (∀ path, request.task = .outline path → ∀ source : String,
      ∃ tokens last report, Outline.all source.toList = .ok (tokens, last) ∧
        last.next = .ok (none, last) ∧
        runWith parser arguments (.contents source.toUTF8) = .ok report ∧
        let answers := tokens.map fun (token, after) => (token, after.reading.context)
        Prints source.toList answers request.showContext report ∧
          ∀ answer ∈ answers, (∃ bytes, answer.2.encode = .ok bytes) ↔ answer.2.LevelsFit) ∧
    ∀ text string noScript, request.task = .values text string noScript →
      let valid : KindSet := { script := !noScript, string }
      valid.isEmpty = false → ∀ document,
      ∃ tokens last report, Values.all text.toList valid = .ok (tokens, last) ∧
        last.next = .ok (none, last) ∧ runWith parser arguments document = .ok report ∧
        let answers := tokens.map fun (token, after) => (token, after.reading.context)
        Prints text.toList answers request.showContext report ∧
          ∀ answer ∈ answers, (∃ bytes, answer.2.encode = .ok bytes) ↔ answer.2.NestingFits := by
  constructor
  · intro path asked source
    rw [runWith_of_parse parsed, report_outline asked]
    exact exists_reportOutline source.toList request.showContext
  · intro text string noScript asked valid filled document
    rw [runWith_of_parse parsed, report_values asked filled]
    exact exists_reportValues text.toList (meets_acceptedKinds filled) request.showContext

/-- The flag may stand before the outline of a document or behind what asks for values. -/
theorem run_prints_flags :
    let outline := ["--state", "outline", "index.pug"]
    let values := ["attr", "a?b", "--state"]
    parse outline = .ok ⟨.outline "index.pug", true⟩ ∧
      parse values = .ok ⟨.values "a?b" false false, true⟩ ∧
      (∃ tokens last report, Outline.all "ul\n\tli".toList = .ok (tokens, last) ∧
        run outline (.contents "ul\n\tli".toUTF8) = .ok report ∧
        Prints "ul\n\tli".toList
          (tokens.map fun (token, after) => (token, after.reading.context)) true report) ∧
      ∃ tokens last report, Values.all "a?b".toList { script := true } = .ok (tokens, last) ∧
        run values .missing = .ok report ∧
        Prints "a?b".toList (tokens.map fun (token, after) => (token, after.reading.context))
          true report := by
  intro outline values
  have parsed : parse outline = .ok ⟨.outline "index.pug", true⟩ := by decide
  have parsedToo : parse values = .ok ⟨.values "a?b" false false, true⟩ := by decide
  obtain ⟨tokens, last, report, drained, _, ran, prints, _⟩ :=
    (run_prints parsed).1 "index.pug" rfl "ul\n\tli"
  obtain ⟨others, stop, other, drainedToo, _, ranToo, printsToo, _⟩ :=
    (run_prints parsedToo).2 "a?b" false false rfl rfl .missing
  exact ⟨parsed, parsedToo, ⟨tokens, last, report, drained, ran, prints⟩,
    others, stop, other, drainedToo, ranToo, printsToo⟩

end PugTokens.Command
