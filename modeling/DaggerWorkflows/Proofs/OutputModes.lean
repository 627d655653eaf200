import DaggerWorkflows.Proofs.RunEffects
import DaggerWorkflows.Proofs.ScalarTokens
import DaggerWorkflows.Proofs.WrittenFiles

/-!
# Printing and writing agree

Workflows are either printed, one after the other with their paths in between,
or written to files. Both come after the compiling, and both give the same
contents under the same paths, if there is room for them.

In what is printed a path has a line of its own, since the contents before it
end their last line. That is so by its form for JSON. For YAML it depends on
what comes last: a text that is written line by line brings the end of its last
line along, and this need not be a newline, because there are other characters
that a reader of YAML takes for one. What comes last in a workflow is an output
of its job, and that is on one line (`Job.closesLine_datum`).
-/

namespace DaggerWorkflows

/-! ## The end of the last line -/

/-- A text that ends its last line. -/
def EndsLine (cs : List Char) : Prop := cs.getLast? = some '\n'

theorem EndsLine.append {cs : List Char} (h : EndsLine cs)
    (before : List Char) :
    EndsLine (before ++ cs) := by
  rw [EndsLine, List.getLast?_append, h]
  rfl

theorem EndsLine.cons {cs : List Char} (h : EndsLine cs) (c : Char) :
    EndsLine (c :: cs) :=
  h.append [c]

theorem endsLine_newline : EndsLine ['\n'] := rfl

namespace Datum

/-- Data whose last text, if there is one, is not written line by line. -/
inductive ClosesLine : Datum → Prop where
  | text {s : String} (h : Scalar.style s ≠ .literal) : ClosesLine (.text s)
  | flag (b : Bool) : ClosesLine (.flag b)
  | noItems : ClosesLine (.list [])
  | noEntries : ClosesLine (.map [])
  | items (items : List Datum) (d : Datum) (h : ClosesLine d) :
      ClosesLine (.list (items ++ [d]))
  | entries (entries : List (String × Datum)) (key : String) (d : Datum)
      (h : ClosesLine d) :
      ClosesLine (.map (entries ++ [(key, d)]))

theorem endsLine_yamlItems {d : Datum}
    (h : ∀ indent short, EndsLine (d.yamlAfter indent short)) (indent : Nat)
    (padded : Bool) (items : List Datum) :
    EndsLine (yamlItems indent padded (items ++ [d])) := by
  induction items generalizing padded with
  | nil =>
      rw [List.nil_append, yamlItems, yamlItems, List.append_nil]
      exact ((h indent false).cons '-').append _
  | cons first items ih =>
      rw [List.cons_append, yamlItems]
      exact (ih true).append _

theorem endsLine_yamlEntries {d : Datum}
    (h : ∀ indent short, EndsLine (d.yamlAfter indent short)) (indent : Nat)
    (padded : Bool) (entries : List (String × Datum)) (key : String) :
    EndsLine (yamlEntries indent padded (entries ++ [(key, d)])) := by
  induction entries generalizing padded with
  | nil =>
      rw [List.nil_append, yamlEntries, yamlEntries, List.append_nil]
      refine EndsLine.append ?_ _
      split
      · exact ((h indent true).cons ':').append _
      · exact ((h indent false).cons ':').append _
  | cons first entries ih =>
      rw [List.cons_append, yamlEntries]
      exact (ih true).append _

theorem ClosesLine.yamlAfter {d : Datum} (h : d.ClosesLine) (indent : Nat)
    (short : Bool) :
    EndsLine (d.yamlAfter indent short) := by
  induction h generalizing indent short with
  | text hstyle =>
      rw [Datum.yamlAfter, Scalar.endLine_eq, Scalar.lineEnd_render,
        if_neg hstyle]
      exact (endsLine_newline.append _).cons ' '
  | flag b => exact endsLine_newline.append _
  | noItems => rfl
  | noEntries => rfl
  | items items d h ih =>
      -- Only what is not empty is written line by line.
      cases hitems : items ++ [d] with
      | nil => simp at hitems
      | cons first rest =>
          rw [Datum.yamlAfter, ← hitems]
          split
          · exact (endsLine_yamlItems ih indent true items).cons '\n'
          · exact (endsLine_yamlItems ih (indent + 2) false items).cons ' '
  | entries entries key d h ih =>
      cases hentries : entries ++ [(key, d)] with
      | nil => simp at hentries
      | cons first rest =>
          rw [Datum.yamlAfter, ← hentries]
          split
          · exact (endsLine_yamlEntries ih (indent + 2) true entries key).cons
              '\n'
          · exact (endsLine_yamlEntries ih (indent + 2) false entries key).cons
              ' '

theorem ClosesLine.yaml {d : Datum} (h : d.ClosesLine) :
    EndsLine d.yaml.toList := by
  cases h with
  | text hstyle =>
      rw [Datum.yaml, String.toList_ofList, Scalar.endLine_eq,
        Scalar.lineEnd_render, if_neg hstyle]
      exact endsLine_newline.append _
  | flag b =>
      rw [Datum.yaml, String.toList_ofList]
      exact endsLine_newline.append _
  | noItems => rfl
  | noEntries => rfl
  | items items d h =>
      rw [Datum.yaml, String.toList_ofList]
      · exact endsLine_yamlItems h.yamlAfter 0 false items
      · simp
  | entries entries key d h =>
      rw [Datum.yaml, String.toList_ofList]
      · exact endsLine_yamlEntries h.yamlAfter 0 false entries key
      · simp

theorem endsLine_json (d : Datum) : EndsLine d.json.toList := by
  rw [json, String.toList_ofList]
  exact endsLine_newline.append _

end Datum

/-- A text of one line is not written line by line. -/
theorem Datum.Scalar.style_ne_literal {s : String} (h : '\n' ∉ s.toList) :
    style s ≠ .literal := by
  intro hstyle
  have hsuits := suits_style s
  rw [hstyle] at hsuits
  exact h hsuits.2

/-- The outputs of a job come last. -/
theorem Job.closesLine_datum (runner : String) (steps : List Step) :
    (Job.datum ⟨runner, steps, Pipeline.outputs⟩).ClosesLine := by
  let expression (name : String) : String :=
    ContextKey.expressionOf ("steps.exec.outputs." ++ name)
  have houtputs : Pipeline.outputs.entries =
      [("stderr", expression "stderr"), ("stdout", expression "stdout")] := by
        decide +kernel
  have hstdout : '\n' ∉ (expression "stdout").toList := by decide +kernel
  have hmember : textMapMember "outputs" Pipeline.outputs = [("outputs", .map
      ([("stderr", .text (expression "stderr"))] ++
        [("stdout", .text (expression "stdout"))]))] := by
    rw [textMapMember, Datum.textMap, SortedMap.isEmpty, houtputs]
    rfl
  rw [Job.datum, hmember]
  exact .entries _ "outputs" _
    (.entries _ "stdout" _ (.text (Datum.Scalar.style_ne_literal hstdout)))

theorem Registered.HasFile.endsLine {t : Registered} {stem : String}
    {format : OutputFormat} {file : TreeFile} (h : t.HasFile stem format file) :
    EndsLine file.contents.toList := by
  obtain ⟨steps, hcontents⟩ := h.contents
  rw [hcontents]
  cases format with
  | json => exact Datum.endsLine_json _
  | yaml =>
      have hjob := Job.closesLine_datum t.trigger.pipeline.settings.runner steps
      exact Datum.ClosesLine.yaml
        (.entries [_, _] "jobs" _ (.entries [] Pipeline.jobName _ hjob))

/-! ## What is printed -/

/-- A file as it is printed. -/
def TreeFile.printed (file : TreeFile) :
    String := "# " ++ file.path ++ "\n" ++ file.contents

/-- What comes before the start of a line. -/
def StartsLine (before : String) : Prop := before = "" ∨ EndsLine before.toList

theorem startsLine_join {files : List TreeFile}
    (h : ∀ file ∈ files, EndsLine file.contents.toList) :
    StartsLine (String.join (files.map TreeFile.printed)) := by
  rcases List.eq_nil_or_concat files with rfl | ⟨front, last, rfl⟩
  · exact .inl rfl
  · have hlast : EndsLine last.contents.toList := h last (by simp)
    right
    rw [List.concat_eq_append, List.map_append, String.join_append,
      List.map_singleton,
      String.join_cons, String.join_nil, String.append_empty, TreeFile.printed,
      String.toList_append, String.toList_append]
    exact (hlast.append _).append _

namespace Registry

variable {r : Registry} {stem : String}

theorem text_eq (tree : FileTree) :
    tree.text = String.join (tree.files.map TreeFile.printed) := rfl

theorem endsLine_of_files {tree : FileTree}
    (h : (r.files stem).result = .ok tree) :
    ∀ file ∈ tree.files, EndsLine file.contents.toList := by
  intro file hmem
  obtain ⟨t, -, hfile⟩ := exists_trigger_of_mem_files h hmem
  exact hfile.endsLine

/-- What has been written is found under the paths that are given back, in their
order. -/
theorem read_of_generate {tree : FileTree} {output : String} {fs : FileSystem}
    {paths : List String} (hfiles : (r.files stem).result = .ok tree)
    (h : (r.generate stem output fs).2.result = .ok paths) :
    List.Forall₂ (fun path file => path = FilePath.join output file.path ∧
      (r.generate stem output fs).1.read path = .ok file.contents.toUTF8) paths
        tree.files := by
  have hwrite : (tree.write output fs).2.result = .ok paths := by
    rw [← generate_result hfiles, h]
  obtain ⟨rfl, hwritten⟩ := FileTree.writeFiles_ok hwrite
  have heach := hwritten.each (FileTree.placedApart_of_files hfiles output)
  rw [generate_of_ok hfiles, List.forall₂_map_left_iff, List.forall₂_same]
  intro file hmem
  obtain ⟨place, hnames, hentry⟩ := heach file hmem
  exact ⟨rfl, FileSystem.read_of_names hnames hentry⟩

open Program in
/-- Printing workflows and writing them agree. Either fails as compiling does,
and then leaves nothing. Otherwise what is printed is the files in their order,
each after a line with its path, all of them where all can be printed; and if
they can be written as well, those are the files that are written. -/
theorem modes_agree (r : Registry) (stem output : String) (world : World) :
    match (r.files stem).result with
    | .error e =>
        (r.generateText stem).result = .error e ∧
        runCommand world r (.generate stem output true) =
          ⟨exitCode e, "", some e.message, (r.files stem).events, world.files⟩ ∧
        r.generate stem output world.files =
          (world.files, ⟨.error e, (r.files stem).events⟩)
    | .ok tree =>
        let text := String.join (tree.files.map TreeFile.printed)
        (r.generateText stem).result = .ok text ∧
        runCommand world r (.generate stem output true) =
          report world.files (world.host.stdout.write text).1
            ⟨(world.host.stdout.write text).2, (r.files stem).events⟩ ∧
        ((world.host.stdout.write text).2 = .ok () →
          runCommand world r (.generate stem output true) =
            ⟨0, text, none, (r.files stem).events, world.files⟩) ∧
        (∀ file ∈ tree.files, EndsLine file.contents.toList) ∧
        (∀ front file back, tree.files = front ++ file :: back →
          StartsLine (String.join (front.map TreeFile.printed))) ∧
        ∀ paths, (r.generate stem output world.files).2.result = .ok paths →
          List.Forall₂ (fun path file => path = FilePath.join output file.path ∧
            (r.generate stem output world.files).1.read path =
              .ok file.contents.toUTF8)
            paths tree.files := by
  have hprint : runCommand world r (.generate stem output true) =
      report world.files (r.generateTo stem world.host.stdout).1
        (r.generateTo stem world.host.stdout).2 := rfl
  cases hfiles : (r.files stem).result with
  | error e =>
      have htext := generateText_of_error hfiles
      refine ⟨congrArg Traced.result htext, ?_,
        generate_of_error hfiles output world.files⟩
      rw [hprint, generateTo_of_error hfiles, report_of_error rfl]
  | ok tree =>
      have htext := generateText_of_ok hfiles
      have hends := endsLine_of_files hfiles
      rw [generateTo_of_ok hfiles] at hprint
      refine ⟨congrArg Traced.result htext, hprint, fun hdone =>
        ?_, hends, ?_, ?_⟩
      · rw [← text_eq] at hdone
        rw [hprint, Sink.write_ok hdone, report_of_ok hdone, text_eq]
      · intro front file back hsplit
        refine startsLine_join fun before hmem => hends before ?_
        rw [hsplit]
        exact List.mem_append_left _ hmem
      · exact fun paths hpaths => read_of_generate hfiles hpaths

end Registry

end DaggerWorkflows
