import PlaceholderIcons.Proofs.IntegerText
import PlaceholderIcons.Proofs.InterruptedRuns
import PlaceholderIcons.Proofs.Utf8Decoding

/-!
What a run shows about itself. The length of previews and the request for a log
are read only where report and log grow, so the run stores the same files and
has the same result under all of them. In the report only the lines of the
previews depend on the length. The log is a list of messages that depends on
neither, and its warnings are those of the labels that do not fit, in the order
of the set.
-/

namespace PlaceholderIcons

namespace Bytes

def newline : UInt8 := 0x0A

/-- The lines of a text; behind the last newline there is one more. -/
def lines (text : Bytes) : List Bytes :=
  splitOn newline text

theorem lines_append (front back : Bytes) :
    lines (front ++ newline :: back) = lines front ++ lines back :=
  splitOn_append_mark newline front back

theorem lines_of_not_mem {text : Bytes} (h : newline ∉ text) : lines text = [text] :=
  splitOn_of_not_mem h

/-- Two texts whose lines are related one by one. -/
def LinesRelated (related : Bytes → Bytes → Prop) (text text' : Bytes) : Prop :=
  List.Forall₂ related (lines text) (lines text')

section

variable {related : Bytes → Bytes → Prop} {text text' rest rest' : Bytes}

theorem LinesRelated.refl (hrefl : ∀ line, related line line) (text : Bytes) :
    LinesRelated related text text :=
  List.forall₂_same.2 fun line _ => hrefl line

theorem LinesRelated.append_line (hfirst : LinesRelated related text text')
    (hrest : LinesRelated related rest rest') :
    LinesRelated related (text ++ newline :: rest) (text' ++ newline :: rest') := by
  rw [LinesRelated, lines_append, lines_append]
  exact List.rel_append hfirst hrest

/-- A text that ends its last line can be put in front of both. -/
theorem LinesRelated.append_left (hrefl : ∀ line, related line line)
    (hend : text.getLast? = some newline) (hrest : LinesRelated related rest rest') :
    LinesRelated related (text ++ rest) (text ++ rest') := by
  obtain ⟨front, rfl⟩ := List.getLast?_eq_some_iff.1 hend
  rw [List.append_assoc, List.append_assoc]
  exact (LinesRelated.refl hrefl front).append_line hrest

theorem linesRelated_of_not_mem (h : newline ∉ text) (h' : newline ∉ text')
    (hrelated : related text text') : LinesRelated related text text' := by
  rw [LinesRelated, lines_of_not_mem h, lines_of_not_mem h']
  exact .cons hrelated .nil

end

end Bytes

open Bytes

theorem Base64.newline_not_mem_encode (data : Bytes) : newline ∉ encode data := by
  have hsymbol : ∀ n : Nat, symbol n ≠ newline := by
    intro n heq
    have hnat : (symbol n).toNat = 10 := congrArg UInt8.toNat heq
    unfold symbol at hnat
    split at hnat
    · rw [UInt8.toNat_ofNat_of_lt' (show 0x41 + n < 256 by omega)] at hnat
      omega
    · split at hnat
      · rw [UInt8.toNat_ofNat_of_lt' (show 0x61 + (n - 26) < 256 by omega)] at hnat
        omega
      · split at hnat
        · rw [UInt8.toNat_ofNat_of_lt' (show 0x30 + (n - 52) < 256 by omega)] at hnat
          omega
        · split at hnat <;> simp at hnat
  have hpadding : padding ≠ newline := by decide
  fun_induction encode data with
  | case1 => simp
  | case2 a => simp [Ne.symm (hsymbol _), Ne.symm hpadding]
  | case3 a b => simp [Ne.symm (hsymbol _), Ne.symm hpadding]
  | case4 a b c s ih => simp [Ne.symm (hsymbol _), ih]

theorem Preview.newline_not_mem_dataUrl (document : Bytes) (limit : Int64) :
    newline ∉ dataUrl document limit := by
  have hencode : newline ∉ encode document limit := by
    intro hmem
    apply Base64.newline_not_mem_encode document
    simp only [encode] at hmem
    split at hmem
    · exact List.mem_of_mem_take hmem
    · exact hmem
  have hurl : newline ∉ utf8 "data:image/svg+xml;base64," ++ encode document limit := by
    rw [List.mem_append, not_or]
    exact ⟨by decide, hencode⟩
  simp only [dataUrl]
  split
  · rw [List.mem_append, not_or]
    exact ⟨hurl, by decide⟩
  · exact hurl

/-- Lines at one place of two reports: one text, or the previews of one icon at
two lengths. -/
def SameLine (specs : List IconSpec) (limit limit' : Int64) (line line' : Bytes) : Prop :=
  line = line' ∨ ∃ spec ∈ specs,
    line = Preview.dataUrl (Document.render spec.size spec.label) limit ∧
    line' = Preview.dataUrl (Document.render spec.size spec.label) limit'

namespace Report

theorem getLast?_line (text : Bytes) : (line text).getLast? = some newline :=
  List.getLast?_concat

section

variable {related : Bytes → Bytes → Prop} {limit limit' : Int64} {rest rest' : Bytes}

/-- The preview stands in a line of its own. -/
theorem linesRelated_preview (hrefl : ∀ line, related line line) {drawing : Drawing}
    (hurl : related (Preview.dataUrl drawing.document (if limit < 0 then 0 else limit))
      (Preview.dataUrl drawing.document (if limit' < 0 then 0 else limit')))
    (hrest : LinesRelated related rest rest') :
    LinesRelated related (preview limit drawing ++ rest) (preview limit' drawing ++ rest') := by
  have hsplit (l : Int64) (more : Bytes) : preview l drawing ++ more =
      (utf8 "\n" ++ drawing.record.path ++ utf8 ":") ++ newline ::
        (Preview.dataUrl drawing.document (if l < 0 then 0 else l) ++ newline :: more) := by
    have hnewline : utf8 "\n" = [newline] := by decide
    simp [preview, line, hnewline]
  rw [hsplit, hsplit]
  apply (LinesRelated.refl hrefl _).append_line
  apply LinesRelated.append_line _ hrest
  exact linesRelated_of_not_mem (Preview.newline_not_mem_dataUrl _ _)
    (Preview.newline_not_mem_dataUrl _ _) hurl

theorem linesRelated_written (hrefl : ∀ line, related line line) {drawings : List Drawing}
    (hurls : ∀ d ∈ drawings,
      related (Preview.dataUrl d.document (if limit < 0 then 0 else limit))
        (Preview.dataUrl d.document (if limit' < 0 then 0 else limit')))
    (hrest : LinesRelated related rest rest') :
    LinesRelated related (drawings.flatMap (fun d => preview limit d ++ saved d) ++ rest)
      (drawings.flatMap (fun d => preview limit' d ++ saved d) ++ rest') := by
  induction drawings with
  | nil => exact hrest
  | cons d drawings ih =>
    have hsaved : (saved d).getLast? = some newline := getLast?_line _
    simp only [List.flatMap_cons, List.append_assoc]
    apply linesRelated_preview hrefl (hurls d List.mem_cons_self)
    apply LinesRelated.append_left hrefl hsaved
    have hmore := ih fun d hd => hurls d (List.mem_cons_of_mem _ hd)
    simpa only [List.append_assoc] using hmore

end

/-- Two reports of one outcome differ in the lines of the previews only. -/
theorem linesRelated_render {related : Bytes → Bytes → Prop} (hrefl : ∀ line, related line line)
    {s s' : RunSettings} (hset : s.set = s'.set) {outcome : Outcome}
    (hurls : ∀ d, d ∈ outcome.written ∨ d ∈ outcome.failed.map Prod.fst →
      related (Preview.dataUrl d.document (if s.previewLimit < 0 then 0 else s.previewLimit))
        (Preview.dataUrl d.document (if s'.previewLimit < 0 then 0 else s'.previewLimit))) :
    LinesRelated related (render s outcome) (render s' outcome) := by
  have hinstructions : (instructions s.set).getLast? = some newline := by
    rw [instructions, List.getLast?_append, getLast?_line]
    rfl
  obtain ⟨written, failed⟩ := outcome
  have hwritten := fun d hd => hurls d (.inl hd)
  simp only [render, ← hset, List.append_assoc]
  apply LinesRelated.append_left hrefl hinstructions
  cases failed with
  | none => exact linesRelated_written hrefl hwritten (LinesRelated.refl hrefl closing)
  | some failure =>
    have hlast := linesRelated_preview hrefl (hurls failure.1 (.inr rfl))
      (LinesRelated.refl hrefl [])
    simp only [List.append_nil] at hlast
    exact linesRelated_written hrefl hwritten hlast

end Report

theorem Hexadecimal.newline_not_mem_fixed (width n : Nat) : newline ∉ fixed width n := by
  intro hmem
  exact absurd (bounds_of_mem_fixed hmem).1 (by decide)

theorem Checksum.newline_not_mem_text (v : UInt64) : newline ∉ text v := by
  intro hmem
  exact absurd (bounds_of_mem_text hmem).1 (by decide)

theorem Utf8.newline_not_mem_encodeChar {c : Char} (h : c ≠ '\n') : newline ∉ encodeChar c := by
  intro hmem
  rcases toNat_of_mem_encodeChar hmem with heq | hhigh
  · exact h (Char.toNat_inj.1 heq.symm)
  · exact absurd hhigh (by decide)

namespace Quoted

theorem newline_not_mem_numbered (n : Nat) : newline ∉ numbered n := by
  have hfixed (width : Nat) := Hexadecimal.newline_not_mem_fixed width n
  unfold numbered
  split
  · exact List.not_mem_append (by decide) (hfixed 2)
  · split
    · exact List.not_mem_append (by decide) (hfixed 4)
    · exact List.not_mem_append (by decide) (hfixed 8)

theorem newline_not_mem_char (c : Char) : newline ∉ char '"' c := by
  unfold char
  split
  next hmark =>
    have hc : c ≠ '\n' := by
      rintro rfl
      exact absurd hmark (by decide)
    exact List.not_mem_append (by decide) (Utf8.newline_not_mem_encodeChar hc)
  next =>
    split
    next hprintable =>
      apply Utf8.newline_not_mem_encodeChar
      rintro rfl
      exact absurd hprintable (by decide +kernel)
    next =>
      split
      next letter hletter =>
        have hne : newline ≠ letter := by
          unfold controlLetter? at hletter
          split at hletter <;> cases hletter <;> decide
        exact List.not_mem_append (by decide) (by simpa using hne)
      next => exact newline_not_mem_numbered c.toNat

end Quoted

/-- Quoted text stays on its line. -/
theorem newline_not_mem_quoted (s : Bytes) : newline ∉ quoted s := by
  have hpieces : newline ∉ (Utf8.decode s).flatMap Quoted.piece := by
    intro hmem
    obtain ⟨piece, -, hpiece⟩ := List.mem_flatMap.1 hmem
    cases piece with
    | char c => exact Quoted.newline_not_mem_char c hpiece
    | stray b =>
      exact List.not_mem_append (by decide) (Hexadecimal.newline_not_mem_fixed 2 b.toNat) hpiece
  exact List.not_mem_append (List.not_mem_append (by decide) hpieces) (by decide)

theorem Document.newline_not_mem_path {target : Bytes} (h : newline ∉ target) :
    newline ∉ path target :=
  List.not_mem_append (fun hmem => h (List.mem_of_mem_take hmem)) (by decide)

namespace Log

/-- What is said of a run that begins. -/
def opening (set : IconSet) (root : Bytes) : Bytes :=
  utf8 "set " ++ set.name ++ utf8 ": " ++ Decimal.ofNat set.specs.length ++ utf8 " icons into " ++
    root

/-- What is said of a label that does not fit. -/
def warning (spec : IconSpec) : Bytes :=
  utf8 "warn: label " ++ quoted spec.label ++ utf8 " likely overflows " ++
    Decimal.ofInt64 spec.size ++ utf8 "px icon " ++ Document.path spec.target

/-- What is said of an icon that has been written. -/
def storing (spec : IconSpec) : Bytes :=
  utf8 "wrote " ++ spec.draw.record.path ++ utf8 " (" ++ Decimal.ofInt64 spec.draw.record.bytes ++
    utf8 " bytes, hash " ++ spec.draw.record.hash ++ utf8 ")"

def warnings (spec : IconSpec) : List Bytes :=
  if spec.draw.record.fits then [] else [warning spec]

/-- The messages of a run that has stored some icons and may have met one that
cannot be stored. -/
def messages (set : IconSet) (root : Bytes) (stored : List IconSpec) (blocked : Option IconSpec) :
    List Bytes :=
  opening set root :: stored.flatMap (fun spec => warnings spec ++ [storing spec]) ++
    blocked.toList.flatMap warnings

def isWarning (message : Bytes) : Bool :=
  (utf8 "warn: ").isPrefixOf message

theorem flatMap_line_warnings (spec : IconSpec) :
    (warnings spec).flatMap line = overflow spec.draw := by
  unfold warnings overflow
  split
  · rfl
  · exact List.append_nil _

theorem flatMap_line_stored (stored : List IconSpec) :
    (stored.flatMap fun spec => warnings spec ++ [storing spec]).flatMap line =
      (stored.map IconSpec.draw).flatMap fun d => overflow d ++ wrote d := by
  rw [List.flatMap_assoc, List.flatMap_map]
  congr 1
  funext spec
  rw [List.flatMap_append, flatMap_line_warnings, List.flatMap_singleton]
  rfl

theorem flatMap_warnings (specs : List IconSpec) :
    specs.flatMap warnings = (specs.filter fun spec => !spec.draw.record.fits).map warning := by
  induction specs with
  | nil => rfl
  | cons spec specs ih =>
    rw [List.flatMap_cons, ih, warnings]
    cases hfits : spec.draw.record.fits with
    | true => simp [hfits]
    | false => simp [hfits]

/-- The warnings among the messages are those of the specs whose labels do not
fit. -/
theorem filter_messages (set : IconSet) (root : Bytes) (stored : List IconSpec)
    (blocked : Option IconSpec) :
    (messages set root stored blocked).filter isWarning =
      ((stored ++ blocked.toList).filter fun spec => !spec.draw.record.fits).map warning := by
  have hopening : isWarning (opening set root) = false := rfl
  have hstoring (spec : IconSpec) : [storing spec].filter isWarning = [] := rfl
  have hwarnings (spec : IconSpec) : (warnings spec).filter isWarning = warnings spec := by
    unfold warnings
    split <;> rfl
  have hstored : (stored.flatMap fun spec => warnings spec ++ [storing spec]).filter isWarning =
      stored.flatMap warnings := by
    simp only [List.filter_flatMap, List.filter_append, hwarnings, hstoring, List.append_nil]
  have hblocked : (blocked.toList.flatMap warnings).filter isWarning =
      blocked.toList.flatMap warnings := by
    simp only [List.filter_flatMap, hwarnings]
  rw [messages, List.cons_append, List.filter_cons_of_neg (by simp [hopening]), List.filter_append,
    hstored, hblocked, ← List.flatMap_append, flatMap_warnings]

theorem newline_not_mem_warning {spec : IconSpec} (h : newline ∉ spec.target) :
    newline ∉ warning spec := by
  have hsize : newline ∉ Decimal.ofInt64 spec.size :=
    Decimal.not_mem_ofInt (by decide) (by decide) spec.size.toInt
  simp only [warning, List.mem_append, not_or]
  exact ⟨⟨⟨⟨⟨by decide, newline_not_mem_quoted spec.label⟩, by decide⟩, hsize⟩, by decide⟩,
    Document.newline_not_mem_path h⟩

theorem newline_not_mem_storing {spec : IconSpec} (h : newline ∉ spec.target) :
    newline ∉ storing spec := by
  have hbytes : newline ∉ Decimal.ofInt64 spec.draw.record.bytes :=
    Decimal.not_mem_ofInt (by decide) (by decide) spec.draw.record.bytes.toInt
  simp only [storing, List.mem_append, not_or]
  exact ⟨⟨⟨⟨⟨⟨by decide, Document.newline_not_mem_path h⟩, by decide⟩, hbytes⟩, by decide⟩,
    Checksum.newline_not_mem_text _⟩, by decide⟩

/-- Where no name holds a newline, a message takes one line. -/
theorem newline_not_mem_of_mem_messages {set : IconSet} {root : Bytes} {stored : List IconSpec}
    {blocked : Option IconSpec} (hname : newline ∉ set.name) (hroot : newline ∉ root)
    (htargets : ∀ spec ∈ stored ++ blocked.toList, newline ∉ spec.target) {message : Bytes}
    (h : message ∈ messages set root stored blocked) : newline ∉ message := by
  have hwarnings {spec : IconSpec} (hspec : spec ∈ stored ++ blocked.toList)
      (hmem : message ∈ warnings spec) : newline ∉ message := by
    unfold warnings at hmem
    split at hmem
    · cases hmem
    · rw [List.mem_singleton.1 hmem]
      exact newline_not_mem_warning (htargets spec hspec)
  rcases List.mem_append.1 h with hfront | hblocked
  · rcases List.mem_cons.1 hfront with rfl | hstored
    · have hcount := (Decimal.canonical_ofNat set.specs.length).not_mem
        (show Decimal.isDigit newline = false by decide)
      simp only [opening, List.mem_append, not_or]
      exact ⟨⟨⟨⟨⟨by decide, hname⟩, by decide⟩, hcount⟩, by decide⟩, hroot⟩
    · obtain ⟨spec, hspec, hmem⟩ := List.mem_flatMap.1 hstored
      have hprocessed := List.mem_append_left blocked.toList hspec
      rcases List.mem_append.1 hmem with hwarning | hstoring
      · exact hwarnings hprocessed hwarning
      · rw [List.mem_singleton.1 hstoring]
        exact newline_not_mem_storing (htargets spec hprocessed)
  · obtain ⟨spec, hspec, hmem⟩ := List.mem_flatMap.1 hblocked
    exact hwarnings (List.mem_append_right stored hspec) hmem

/-- The front of every line of a log. -/
def mark : Bytes := utf8 "[exticons] "

theorem lines_flatMap_line {texts : List Bytes} (h : ∀ text ∈ texts, newline ∉ text) :
    lines (texts.flatMap line) = texts.map (mark ++ ·) ++ [[]] := by
  induction texts with
  | nil => rfl
  | cons text texts ih =>
    have htext : newline ∉ mark ++ text :=
      List.not_mem_append (by decide) (h text List.mem_cons_self)
    have hline : line text ++ texts.flatMap line =
        (mark ++ text) ++ newline :: texts.flatMap line := by
      rw [line, List.append_assoc]
      rfl
    rw [List.flatMap_cons, hline, lines_append, lines_of_not_mem htext,
      ih fun text htext => h text (List.mem_cons_of_mem _ htext)]
    rfl

/-- Warnings are found in the text of a log by how their lines begin. -/
theorem filter_lines_flatMap_line {texts : List Bytes} (h : ∀ text ∈ texts, newline ∉ text) :
    (lines (texts.flatMap line)).filter (mark ++ utf8 "warn: ").isPrefixOf =
      (texts.filter isWarning).map (mark ++ ·) := by
  have hwarning : (mark ++ utf8 "warn: ").isPrefixOf ∘ (mark ++ ·) = isWarning := rfl
  rw [lines_flatMap_line h, List.filter_append, List.filter_map, hwarning]
  exact List.append_nil _

/-- The log of a run is made of its messages. -/
theorem render_eq (s : RunSettings) {outcome : Outcome} {stored : List IconSpec}
    {blocked : Option IconSpec} (hwritten : outcome.written = stored.map IconSpec.draw)
    (hfailed : outcome.failed.map Prod.fst = blocked.map IconSpec.draw) :
    render s outcome =
      if s.verbose then (messages s.set s.root stored blocked).flatMap line else [] := by
  obtain ⟨written, failed⟩ := outcome
  obtain rfl : written = stored.map IconSpec.draw := hwritten
  have hmessages : (messages s.set s.root stored blocked).flatMap line =
      line (opening s.set s.root) ++
        (stored.map IconSpec.draw).flatMap (fun d => overflow d ++ wrote d) ++
        (blocked.toList.flatMap warnings).flatMap line := by
    rw [messages, List.flatMap_append, List.flatMap_cons, flatMap_line_stored]
  rw [hmessages]
  cases failed with
  | none =>
    obtain rfl : blocked = none := Option.map_eq_none_iff.1 hfailed.symm
    rfl
  | some failure =>
    obtain ⟨spec, rfl, hdraw⟩ := Option.map_eq_some_iff.1 hfailed.symm
    obtain ⟨drawing, fault⟩ := failure
    obtain rfl : spec.draw = drawing := hdraw
    have hlast : (([spec] : List IconSpec).flatMap warnings).flatMap line = overflow spec.draw := by
      rw [List.flatMap_singleton, flatMap_line_warnings]
    rw [Option.toList_some, hlast]
    rfl

end Log

/-- The same settings with other diagnostics. -/
def RunSettings.withDiagnostics (s : RunSettings) (limit : Int64) (verbose : Bool) : RunSettings :=
  { s with
    previewLimit := limit
    verbose := verbose }

/-- What happens to the files is settled before diagnostics are looked at. -/
theorem generate_withDiagnostics (now : Bytes) (s : RunSettings) (tree : FileTree) :
    ∃ outcome next,
      Ran s.withDefaults.root (s.set.specs.map IconSpec.draw) tree outcome next ∧
      ∀ limit verbose,
        (generate now (s.withDiagnostics limit verbose) : FileTreeM Run).run tree =
          (Run.ofOutcome now (s.withDiagnostics limit verbose).withDefaults outcome, next) := by
  obtain ⟨outcome, next, hran, hruns⟩ := generate_outcome now s tree
  exact ⟨outcome, next, hran, fun limit verbose => hruns (s.withDiagnostics limit verbose) rfl rfl⟩

theorem Run.ofOutcome_eq (now : Bytes) (s : RunSettings) (outcome : Outcome) :
    Run.ofOutcome now s outcome =
      ⟨Report.render s outcome, Log.render s outcome, (Run.ofOutcome now s outcome).result⟩ := rfl

theorem Run.result_withDiagnostics (now : Bytes) (s : RunSettings) (limit : Int64) (verbose : Bool)
    (outcome : Outcome) :
    (Run.ofOutcome now (s.withDiagnostics limit verbose).withDefaults outcome).result =
      (Run.ofOutcome now s.withDefaults outcome).result := by
  obtain ⟨written, failed⟩ := outcome
  cases failed with
  | none =>
    simp only [Run.ofOutcome, Outcome.manifest]
    rfl
  | some failure => rfl

/-- The icon that a run fails at is the first one that is blocked. -/
theorem Ran.map_failed {root : Bytes} {specs : List IconSpec} {tree next : FileTree}
    {outcome : Outcome} (h : Ran root (specs.map IconSpec.draw) tree outcome next) :
    outcome.failed.map Prod.fst = (specs[firstBlocked root tree specs]?).map IconSpec.draw := by
  have hending := h.front.2
  cases hspec : specs[firstBlocked root tree specs]? with
  | none =>
    simp only [hspec] at hending
    rw [hending]
    rfl
  | some spec =>
    simp only [hspec] at hending
    obtain ⟨cause, -, hfailed⟩ := hending
    rw [hfailed]
    rfl

/-- An icon that a run shows is drawn from a spec that it came to. -/
theorem Ran.exists_spec {root : Bytes} {specs : List IconSpec} {tree next : FileTree}
    {outcome : Outcome} (h : Ran root (specs.map IconSpec.draw) tree outcome next) {d : Drawing}
    (hd : d ∈ outcome.written ∨ d ∈ outcome.failed.map Prod.fst) :
    ∃ spec ∈ specs.take (firstBlocked root tree specs + 1), spec.draw = d := by
  rw [List.take_add_one]
  rcases hd with hwritten | hfailed
  · rw [h.front.1] at hwritten
    obtain ⟨spec, hspec, rfl⟩ := List.mem_map.1 hwritten
    exact ⟨spec, List.mem_append_left _ hspec, rfl⟩
  · rw [h.map_failed] at hfailed
    obtain ⟨spec, hspec, rfl⟩ := Option.map_eq_some_iff.1 hfailed
    exact ⟨spec, List.mem_append_right _ (Option.mem_toList.2 hspec), rfl⟩

/-- Reports of one outcome are alike up to the previews of the icons that the run
came to. -/
theorem Ran.linesRelated_report {s : RunSettings} {tree next : FileTree} {outcome : Outcome}
    (h : Ran s.withDefaults.root (s.set.specs.map IconSpec.draw) tree outcome next)
    (limit limit' : Int64) (verbose : Bool) :
    LinesRelated
      (SameLine (s.set.specs.take (firstBlocked s.withDefaults.root tree s.set.specs + 1))
        (Preview.shownLimit limit) (Preview.shownLimit limit'))
      (Report.render (s.withDiagnostics limit verbose).withDefaults outcome)
      (Report.render (s.withDiagnostics limit' verbose).withDefaults outcome) := by
  have hset : (s.withDiagnostics limit verbose).withDefaults.set =
      (s.withDiagnostics limit' verbose).withDefaults.set := rfl
  refine Report.linesRelated_render (fun line => .inl rfl) hset ?_
  intro d hd
  obtain ⟨spec, hspec, rfl⟩ := h.exists_spec hd
  rw [RunSettings.shownLimit_eq, RunSettings.shownLimit_eq]
  exact .inr ⟨spec, hspec, rfl, rfl⟩

namespace CommandLine

/-- A command goes on after its icons without regard to diagnostics. -/
theorem runGenerate_withDiagnostics (now : Bytes) (o : Options) (limit : Int64) (verbose : Bool)
    (tree : FileTree) :
    let first := (runGenerate now o : FileTreeM _).run tree
    let second := (runGenerate now
      { o with previewLimit := limit, verbose := verbose } : FileTreeM _).run tree
    second.1.failure = first.1.failure ∧ second.2 = first.2 := by
  intro first second
  obtain ⟨outcome, middle, -, hruns⟩ := generate_withDiagnostics now o.settings tree
  have hfirst := hruns o.settings.previewLimit o.settings.verbose
  have hsecond := hruns (if limit ≤ 0 then -1 else limit) verbose
  have hsame := Run.result_withDiagnostics now o.settings
  suffices h : ∃ response response' next,
      first = (response, next) ∧ second = (response', next) ∧
        response'.failure = response.failure by
    obtain ⟨response, response', next, hresponse, hresponse', hfailure⟩ := h
    rw [hresponse, hresponse']
    exact ⟨hfailure, rfl⟩
  cases hresult : (Run.ofOutcome now o.settings.withDefaults outcome).result with
  | error failure =>
    obtain ⟨response, hresponse, hfailure⟩ :=
      runGenerate_of_error hfirst ((hsame _ _ outcome).trans hresult)
    obtain ⟨response', hresponse', hfailure'⟩ := runGenerate_of_error
      (o := { o with previewLimit := limit, verbose := verbose }) hsecond
      ((hsame _ _ outcome).trans hresult)
    exact ⟨response, response', middle, hresponse, hresponse', hfailure'.trans hfailure.symm⟩
  | ok m =>
    by_cases hmanifest : o.manifest = true
    · cases hsave : (m.save (manifestPath o.root) : FileTreeM _).run middle with
      | mk saved next =>
        obtain ⟨response, hresponse, hfailure⟩ :=
          runGenerate_of_save hfirst ((hsame _ _ outcome).trans hresult) hmanifest hsave
        obtain ⟨response', hresponse', hfailure'⟩ := runGenerate_of_save
          (o := { o with previewLimit := limit, verbose := verbose }) hsecond
          ((hsame _ _ outcome).trans hresult) hmanifest hsave
        exact ⟨response, response', next, hresponse, hresponse', hfailure'.trans hfailure.symm⟩
    · have hnone := Bool.eq_false_iff.2 hmanifest
      obtain ⟨response, hresponse, hfailure⟩ :=
        runGenerate_of_ok hfirst ((hsame _ _ outcome).trans hresult) hnone
      obtain ⟨response', hresponse', hfailure'⟩ := runGenerate_of_ok
        (o := { o with previewLimit := limit, verbose := verbose }) hsecond
        ((hsame _ _ outcome).trans hresult) hnone
      exact ⟨response, response', middle, hresponse, hresponse', hfailure'.trans hfailure.symm⟩

end CommandLine

/-- Diagnostics do not influence what is produced, for every tree and settings.
Whatever previews and log are asked for, a run has one result and leaves one
tree. The report depends on the length of previews alone, and two reports are
alike line by line except for the previews of the icons that the run came to.
The log is empty unless it is asked for, and else made of messages that depend
on neither setting. The warnings among them are one for each icon that the run
came to and whose label does not fit, in the order of the set; unless a name
holds a newline, so are the lines of the log that begin as warnings do. A
command likewise fails and leaves the tree alike under all diagnostics. -/
theorem generate_diagnostics (now : Bytes) (tree : FileTree) :
    (∀ s : RunSettings,
      let index := firstBlocked s.withDefaults.root tree s.set.specs
      let processed := s.set.specs.take (index + 1)
      let overflowing := processed.filter fun spec => !spec.draw.record.fits
      ∃ (report : Int64 → Bytes) (messages : List Bytes)
        (result : Except (Bytes × FileFault) Manifest) (next : FileTree),
        (∀ limit verbose,
          (generate now (s.withDiagnostics limit verbose) : FileTreeM Run).run tree =
            (⟨report limit, if verbose then messages.flatMap Log.line else [], result⟩, next)) ∧
        (∀ limit limit', LinesRelated
          (SameLine processed (Preview.shownLimit limit) (Preview.shownLimit limit'))
          (report limit) (report limit')) ∧
        messages.filter Log.isWarning = overflowing.map Log.warning ∧
        (newline ∉ s.set.name → newline ∉ s.root → (∀ spec ∈ processed, newline ∉ spec.target) →
          (lines (messages.flatMap Log.line)).filter (Log.mark ++ utf8 "warn: ").isPrefixOf =
            overflowing.map fun spec => Log.mark ++ Log.warning spec)) ∧
    ∀ (o : CommandLine.Options) (limit : Int64) (verbose : Bool),
      let first := (CommandLine.runGenerate now o : FileTreeM _).run tree
      let second := (CommandLine.runGenerate now
        { o with previewLimit := limit, verbose := verbose } : FileTreeM _).run tree
      second.1.failure = first.1.failure ∧ second.2 = first.2 := by
  refine ⟨?_, fun o limit verbose => CommandLine.runGenerate_withDiagnostics now o limit verbose tree⟩
  intro s index processed overflowing
  obtain ⟨outcome, next, hran, hruns⟩ := generate_withDiagnostics now s tree
  have hprocessed : processed = s.set.specs.take index ++ s.set.specs[index]?.toList :=
    List.take_add_one
  refine ⟨fun limit => Report.render (s.withDiagnostics limit s.verbose).withDefaults outcome,
    Log.messages s.set s.withDefaults.root (s.set.specs.take index) s.set.specs[index]?,
    (Run.ofOutcome now s.withDefaults outcome).result, next, ?_, ?_, ?_, ?_⟩
  · intro limit verbose
    have hreport : Report.render (s.withDiagnostics limit verbose).withDefaults outcome =
        Report.render (s.withDiagnostics limit s.verbose).withDefaults outcome := by
      simp only [Report.render]
      rfl
    have hlog : Log.render (s.withDiagnostics limit verbose).withDefaults outcome =
        if verbose then (Log.messages s.set s.withDefaults.root (s.set.specs.take index)
          s.set.specs[index]?).flatMap Log.line else [] :=
      Log.render_eq (s.withDiagnostics limit verbose).withDefaults hran.front.1 hran.map_failed
    rw [hruns limit verbose, Run.ofOutcome_eq, hreport, hlog, Run.result_withDiagnostics]
  · intro limit limit'
    exact hran.linesRelated_report limit limit' s.verbose
  · rw [Log.filter_messages, ← hprocessed]
  · intro hname hroot htargets
    have hroot' : newline ∉ s.withDefaults.root := by
      change newline ∉ if s.root.isEmpty then FilePath.here else s.root
      split
      · decide
      · exact hroot
    rw [hprocessed] at htargets
    rw [Log.filter_lines_flatMap_line fun _ hmessage =>
      Log.newline_not_mem_of_mem_messages hname hroot' htargets hmessage, Log.filter_messages,
      ← hprocessed, List.map_map]
    rfl

theorem generate_diagnostics_interrupted :
    let ran limit verbose := (generate [] (CommandLine.interrupted.withDiagnostics limit verbose) :
      FileTreeM Run).run CommandLine.oldManifest
    (ran 8 false).1.log = [] ∧ (ran 8 false).1.result = (ran (-1) true).1.result ∧
    (ran 8 false).2 = (ran (-1) true).2 ∧
    (lines (ran (-1) true).1.log).filter (Log.mark ++ utf8 "warn: ").isPrefixOf =
      ((CommandLine.interrupted.set.specs.take 3).filter fun spec => !spec.draw.record.fits).map
        fun spec => Log.mark ++ Log.warning spec := by
  intro ran
  have hindex : firstBlocked CommandLine.interrupted.withDefaults.root CommandLine.oldManifest
      CommandLine.interrupted.set.specs = 2 := by decide +kernel
  obtain ⟨report, messages, result, next, hran, -, -, hwarnings⟩ :=
    (generate_diagnostics [] CommandLine.oldManifest).1 CommandLine.interrupted
  rw [hindex] at hwarnings
  have hquiet : ran 8 false = _ := hran 8 false
  have hverbose : ran (-1) true = _ := hran (-1) true
  rw [hquiet, hverbose]
  exact ⟨rfl, rfl, rfl, hwarnings (by decide) (by decide) (by decide)⟩

end PlaceholderIcons
