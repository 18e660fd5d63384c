import CallNames.Proofs.Cli.Run
import CallNames.Proofs.Document.Origin
import CallNames.Proofs.Json.Indented
import CallNames.Proofs.Report.Calls

/-!
# JSON reports lose nothing

A report becomes a JSON value record by record, and the value is written as indented text.

* the offsets of a call are words of 32 bits, and a count is one of 64 bits (`Span.InRange`,
  `SummaryEntry.InRange`). **The offsets of a loaded document are in range** (`outcome_inRange`), so
  what a run reports always is;
* within these ranges the value of a report is plain, and different reports have different values
  (`isPlain_listToJson`, `listToJson_injective`);
* `json_output_lossless`: hence the output is a well-formed document behind which a line ends, it is
  read back as the reports, and no two lists of reports have the same output.
-/

namespace CallNames

/-! ## 1. Ranges -/

/-- Both offsets are words of 32 bits. -/
def Span.InRange (s : Span) : Prop := s.pos < 2 ^ 32 ∧ s.stop < 2 ^ 32

instance (s : Span) : Decidable s.InRange := inferInstanceAs (Decidable (_ ∧ _))

/-- The offsets of all calls are in range. -/
def FileReport.InRange (r : FileReport) : Prop := ∀ c ∈ r.calls, c.span.InRange

instance (r : FileReport) : Decidable r.InRange := List.decidableBAll _ _

/-- The count is a word of 64 bits. -/
def SummaryEntry.InRange (e : SummaryEntry) : Prop := e.count < 2 ^ 64

/-- Offsets that are read are in range, and so are unknown ones. -/
theorem Source.span_inRange (src : Source) : src.span.InRange := by
  have hspan := src.hasSpan_span
  generalize src.span = s at hspan
  cases hspan with
  | named h =>
    obtain ⟨_, _, _, _, hpos, hstop⟩ := h
    exact ⟨hpos.2, hstop.2⟩
  | ranged _ h =>
    obtain ⟨_, _, _, hpos, hstop⟩ := h
    exact ⟨hpos.2, hstop.2⟩
  | unknown => exact ⟨by decide, by decide⟩

theorem callReport?_span {a : Arena} {i : Nat} {t : Traced CallReport}
    (h : a.callReport? i = some t) : ∃ n, a.node? i = some n ∧ t.value.span = n.span := by
  unfold Arena.callReport? at h
  split at h
  · rename_i hn
    cases h
    exact ⟨_, hn, rfl⟩
  · cases h

/-- **What is reported of a document is in range.** -/
theorem ofTree_inRange {v : Json} {d : Document} (h : (Document.ofJson v).value = .ok d)
    (file : String) : (FileReport.ofTree file d.arena (some d.root)).value.InRange := by
  have htree := (ofJson_forest h).isTree
  intro c hc
  rw [FileReport.value_ofTree, Arena.preorder_eq_parentsFirst htree.bottomUp] at hc
  obtain ⟨i, hi, hreport⟩ := List.mem_filterMap.mp hc
  obtain ⟨t, ht, rfl⟩ := Option.map_eq_some_iff.mp hreport
  obtain ⟨n, hn, hspan⟩ := callReport?_span ht
  obtain ⟨w, hw⟩ := (ofJson_holds h).exists_of_mem htree hi
  obtain ⟨src, m, _, hm, hfrom, _⟩ := hw.exists_node
  cases hn.symm.trans hm
  rw [hspan, hfrom]
  exact src.span_inRange

/-- What is loaded from a text is loaded from the value that the text is read as. -/
theorem exists_value_of_ofText {text : String} {d : Document}
    (h : (Document.ofText text).value = .ok d) : ∃ v, (Document.ofJson v).value = .ok d := by
  unfold Document.ofText at h
  split at h
  · cases h
  · split at h
    · cases h
    · rename_i v _
      cases hv : (Document.ofJson v).value with
      | error e =>
        simp only [hv] at h
        cases h
      | ok d' =>
        simp only [hv] at h
        cases h
        exact ⟨v, hv⟩

/-- **What is reported of a file is in range.** -/
theorem outcome_inRange {read : FileReader} {file : String} {r : FileReport}
    (h : FileReport.outcome read file = .ok r) : r.InRange := by
  obtain ⟨text, d, _, hload, rfl⟩ := FileReport.exists_document h
  obtain ⟨v, hv⟩ := exists_value_of_ofText hload
  exact ofTree_inRange hv file

/-! ## 2. Plain values -/

theorem Json.isPlain_ofNat {n : Nat} (h : n < 2 ^ 64) : (Json.ofNat n).isPlain = true := by
  rw [ofNat, isPlain, decide_eq_true_iff]
  omega

theorem Json.isPlain_ofText? (o : Option String) : (Json.ofText? o).isPlain = true := by
  cases o <;> rfl

theorem Json.isPlain_map {α : Type} {f : α → Json} {xs : List α}
    (h : ∀ x ∈ xs, (f x).isPlain = true) : (Json.arr (xs.map f)).isPlain = true := by
  rw [isPlain, isPlainItems_eq_all, List.all_eq_true]
  exact List.forall_mem_map.mpr h

/-- An object with keys of their own is plain if its values are. -/
theorem Json.isPlain_obj {fields : Fields} (hkeys : (fields.map Prod.fst).Nodup)
    (h : ∀ f ∈ fields, f.2.isPlain = true) : (Json.obj fields).isPlain = true := by
  rw [isPlain, isPlainFields_eq_all, Bool.and_eq_true, decide_eq_true_iff, List.all_eq_true]
  exact ⟨hkeys, h⟩

theorem ArgumentReport.isPlain_toJson (r : ArgumentReport) : r.toJson.isPlain = true := by
  refine Json.isPlain_obj (show ["name", "kind", "operand"].Nodup by decide) ?_
  simp only [List.forall_mem_cons]
  exact ⟨rfl, rfl, rfl, List.forall_mem_nil _⟩

theorem CallReport.isPlain_toJson {r : CallReport} (h : r.span.InRange) :
    r.toJson.isPlain = true := by
  have hpos := Json.isPlain_ofNat (Nat.lt_trans h.1 (by decide))
  have hstop := Json.isPlain_ofNat (Nat.lt_trans h.2 (by decide))
  have harguments := Json.isPlain_map fun a (_ : a ∈ r.arguments) => a.isPlain_toJson
  refine Json.isPlain_obj (show ["kind", "start", "end", "full_name", "partial_name",
    "enclosing_function", "arguments"].Nodup by decide) ?_
  simp only [List.forall_mem_cons]
  exact ⟨rfl, hpos, hstop, rfl, Json.isPlain_ofText? _, Json.isPlain_ofText? _, harguments,
    List.forall_mem_nil _⟩

theorem FileReport.isPlain_toJson {r : FileReport} (h : r.InRange) : r.toJson.isPlain = true := by
  have hcalls := Json.isPlain_map fun c hc => CallReport.isPlain_toJson (h c hc)
  refine Json.isPlain_obj (show ["file", "calls"].Nodup by decide) ?_
  simp only [List.forall_mem_cons]
  exact ⟨rfl, hcalls, List.forall_mem_nil _⟩

theorem SummaryEntry.isPlain_toJson {e : SummaryEntry} (h : e.InRange) :
    e.toJson.isPlain = true := by
  refine Json.isPlain_obj (show ["name", "count"].Nodup by decide) ?_
  simp only [List.forall_mem_cons]
  exact ⟨rfl, Json.isPlain_ofNat h, List.forall_mem_nil _⟩

/-- **Reports in range are plain values.** -/
theorem FileReport.isPlain_listToJson {rs : List FileReport} (h : ∀ r ∈ rs, r.InRange) :
    (listToJson rs).isPlain = true :=
  Json.isPlain_map fun r hr => isPlain_toJson (h r hr)

theorem SummaryEntry.isPlain_listToJson {es : List SummaryEntry} (h : ∀ e ∈ es, e.InRange) :
    (listToJson es).isPlain = true :=
  Json.isPlain_map fun e he => isPlain_toJson (h e he)

/-! ## 3. Different reports, different values -/

theorem Json.ofNat_injective : Function.Injective Json.ofNat := by
  intro m n h
  simpa [Json.ofNat] using h

theorem Json.ofText?_injective : Function.Injective Json.ofText? := by
  intro o o' h
  cases o <;> cases o' <;> simp_all [Json.ofText?]

theorem CallStyle.name_injective : Function.Injective fun style : CallStyle => style.kind.name := by
  intro s s' h
  cases s <;> cases s' <;> first | rfl | exact absurd h (by decide)

theorem ArgumentReport.toJson_injective : Function.Injective ArgumentReport.toJson := by
  rintro ⟨name, typeName, operand⟩ ⟨name', typeName', operand'⟩ h
  simp only [toJson, Json.obj.injEq, List.cons.injEq, Prod.mk.injEq, Json.str.injEq,
    Json.bool.injEq, true_and, and_true] at h
  obtain ⟨rfl, rfl, rfl⟩ := h
  rfl

theorem CallReport.toJson_injective : Function.Injective CallReport.toJson := by
  rintro ⟨style, ⟨pos, stop⟩, full, short, enclosing, arguments⟩
    ⟨style', ⟨pos', stop'⟩, full', short', enclosing', arguments'⟩ h
  simp only [toJson, Json.obj.injEq, List.cons.injEq, Prod.mk.injEq, Json.str.injEq, Json.arr.injEq,
    true_and, and_true] at h
  obtain ⟨hstyle, hpos, hstop, rfl, hshort, henclosing, harguments⟩ := h
  cases CallStyle.name_injective hstyle
  cases Json.ofNat_injective hpos
  cases Json.ofNat_injective hstop
  cases Json.ofText?_injective hshort
  cases Json.ofText?_injective henclosing
  cases List.map_injective_iff.mpr ArgumentReport.toJson_injective harguments
  rfl

theorem FileReport.toJson_injective : Function.Injective FileReport.toJson := by
  rintro ⟨file, calls⟩ ⟨file', calls'⟩ h
  simp only [toJson, Json.obj.injEq, List.cons.injEq, Prod.mk.injEq, Json.str.injEq, Json.arr.injEq,
    true_and, and_true] at h
  obtain ⟨rfl, hcalls⟩ := h
  cases List.map_injective_iff.mpr CallReport.toJson_injective hcalls
  rfl

theorem SummaryEntry.toJson_injective : Function.Injective SummaryEntry.toJson := by
  rintro ⟨name, count⟩ ⟨name', count'⟩ h
  simp only [toJson, Json.obj.injEq, List.cons.injEq, Prod.mk.injEq, Json.str.injEq, true_and,
    and_true] at h
  obtain ⟨rfl, hcount⟩ := h
  cases Json.ofNat_injective hcount
  rfl

theorem FileReport.listToJson_injective : Function.Injective FileReport.listToJson :=
  fun _ _ h => List.map_injective_iff.mpr toJson_injective (Json.arr.inj h)

theorem SummaryEntry.listToJson_injective : Function.Injective SummaryEntry.listToJson :=
  fun _ _ h => List.map_injective_iff.mpr toJson_injective (Json.arr.inj h)

/-! ## 4. Outputs -/

/-- **The indented text carries a plain value**: it is a well-formed document, it is read as the
    value, and no other plain value has the same text. -/
theorem Json.prettyText_lossless {v : Json} (hv : v.isPlain = true) :
    IsDocument v.prettyText.toList ∧ Json.parse v.prettyText = .ok v ∧
      ∀ w : Json, w.isPlain = true → w.prettyText = v.prettyText → w = v := by
  refine ⟨isDocument_prettyText hv, parse_prettyText hv, fun w hw h => ?_⟩
  have hparse := parse_prettyText hw
  rw [h, parse_prettyText hv] at hparse
  exact (Except.ok.inj hparse).symm

namespace Options

variable {o : Options} {colour : Bool}

theorem output_json (hformat : o.format = .json) (hsummary : o.summary = false)
    (reports : List FileReport) :
    o.output colour reports = (FileReport.listToJson reports).prettyText ++ "\n" := by
  rw [output, hformat, hsummary]

theorem output_json_summary (hformat : o.format = .json) (hsummary : o.summary = true)
    (reports : List FileReport) :
    o.output colour reports =
      (SummaryEntry.listToJson (SummaryEntry.ofReports reports)).prettyText ++ "\n" := by
  rw [output, hformat, hsummary]

/-- What a run writes is the output for reports in range. -/
theorem exists_inRange_of_run {read : FileReader} {out : String}
    (h : (o.run colour read).value = .ok out) :
    ∃ reports : List FileReport, (∀ r ∈ reports, r.InRange) ∧ out = o.output colour reports := by
  rw [run_eq_runWith] at h
  obtain ⟨reports, hreports, hout⟩ := exists_reports_of_runWith (collects_inOrder _ _) h
  refine ⟨reports, fun r hr => ?_, hout⟩
  have hmem : .ok r ∈ o.files.map (FileReport.outcome read) := by
    rw [hreports]
    exact List.mem_map_of_mem hr
  obtain ⟨file, _, hfile⟩ := List.mem_map.mp hmem
  exact outcome_inRange hfile

/-- **JSON output loses nothing.** Behind it a line ends. The text before is a well-formed document,
    it is read as the reports with every field under its name and in its order, and different
    reports have different outputs; likewise for the entries of a summary. What a run reports is in
    range, and so are the counts of fewer than `2 ^ 64` calls. -/
theorem json_output_lossless (o : Options) (colour : Bool) (hformat : o.format = .json) :
    (o.summary = false →
      (∀ reports : List FileReport, (∀ r ∈ reports, r.InRange) →
        ∃ text, o.output colour reports = text ++ "\n" ∧ Json.IsDocument text.toList ∧
          Json.parse text = .ok (.arr (reports.map fun r => .obj
            [("file", .str r.file),
              ("calls", .arr (r.calls.map fun c => .obj
                [("kind", .str c.style.kind.name),
                  ("start", .ofNat c.span.pos),
                  ("end", .ofNat c.span.stop),
                  ("full_name", .str c.fullName),
                  ("partial_name", .ofText? c.shortName),
                  ("enclosing_function", .ofText? c.enclosing),
                  ("arguments", .arr (c.arguments.map fun a => .obj
                    [("name", .str a.name),
                      ("kind", .str a.typeName),
                      ("operand", .bool a.operand)]))]))])) ∧
          ∀ others : List FileReport, (∀ r ∈ others, r.InRange) →
            o.output colour others = o.output colour reports → others = reports) ∧
      ∀ read out, (o.run colour read).value = .ok out →
        ∃ reports : List FileReport, (∀ r ∈ reports, r.InRange) ∧
          out = o.output colour reports) ∧
    (o.summary = true → ∀ reports : List FileReport,
      o.output colour reports =
        (SummaryEntry.listToJson (SummaryEntry.ofReports reports)).prettyText ++ "\n" ∧
      ((SummaryEntry.keys reports).length < 2 ^ 64 →
        ∀ e ∈ SummaryEntry.ofReports reports, e.InRange)) ∧
    ∀ entries : List SummaryEntry, (∀ e ∈ entries, e.InRange) →
      Json.IsDocument (SummaryEntry.listToJson entries).prettyText.toList ∧
      Json.parse (SummaryEntry.listToJson entries).prettyText = .ok (.arr (entries.map fun e => .obj
        [("name", .str e.name), ("count", .ofNat e.count)])) ∧
      ∀ others : List SummaryEntry, (∀ e ∈ others, e.InRange) →
        (SummaryEntry.listToJson others).prettyText =
          (SummaryEntry.listToJson entries).prettyText → others = entries := by
  refine ⟨fun hsummary => ⟨fun reports hreports => ?_, fun read out hrun => ?_⟩,
    fun hsummary reports => ⟨output_json_summary hformat hsummary reports, fun hcalls e he => ?_⟩,
    fun entries hentries => ?_⟩
  · obtain ⟨hdocument, hparse, hdiffer⟩ :=
      Json.prettyText_lossless (FileReport.isPlain_listToJson hreports)
    refine ⟨_, output_json hformat hsummary reports, hdocument, hparse, fun others hothers h => ?_⟩
    rw [output_json hformat hsummary, output_json hformat hsummary, String.append_left_inj] at h
    exact FileReport.listToJson_injective
      (hdiffer _ (FileReport.isPlain_listToJson hothers) h)
  · exact exists_inRange_of_run hrun
  · exact Nat.lt_of_le_of_lt (SummaryEntry.count_le_of_mem he) hcalls
  · obtain ⟨hdocument, hparse, hdiffer⟩ :=
      Json.prettyText_lossless (SummaryEntry.isPlain_listToJson hentries)
    exact ⟨hdocument, hparse, fun others hothers h => SummaryEntry.listToJson_injective
      (hdiffer _ (SummaryEntry.isPlain_listToJson hothers) h)⟩

/-- Reports with quotes, a backslash, control characters and brackets in their texts, with and
    without names, and with empty lists. -/
def awkwardReports : List FileReport :=
  [⟨"a\"\\\x01[é.json", []⟩,
    ⟨"", [⟨.construct, ⟨0, 4294967295⟩, "", none, some "\x7b\n\t\x7d", []⟩,
      ⟨.call, ⟨1, 2⟩, "f.g", some ".g", none, [⟨"", "Literal", true⟩]⟩]⟩]

/-- The awkward reports are read back, and without the second one the output is another. -/
theorem awkwardReports_lossless :
    (∀ r ∈ awkwardReports, r.InRange) ∧
    (∃ text, output ⟨[], .json, false, false⟩ false awkwardReports = text ++ "\n" ∧
      Json.IsDocument text.toList ∧
      Json.parse text = .ok (FileReport.listToJson awkwardReports)) ∧
    output ⟨[], .json, false, false⟩ false (awkwardReports.take 1) ≠
      output ⟨[], .json, false, false⟩ false awkwardReports := by
  have hrange : ∀ r ∈ awkwardReports, r.InRange := by decide
  obtain ⟨hreports, _⟩ := (json_output_lossless ⟨[], .json, false, false⟩ false rfl).1 rfl
  obtain ⟨text, hout, hdocument, hparse, hdiffer⟩ := hreports awkwardReports hrange
  refine ⟨hrange, ⟨text, hout, hdocument, hparse⟩, fun h => ?_⟩
  have hshort := hdiffer (awkwardReports.take 1) (fun r hr => hrange r (List.mem_of_mem_take hr)) h
  exact absurd hshort (by decide)

end Options

end CallNames
