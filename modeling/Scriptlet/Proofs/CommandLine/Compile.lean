import Scriptlet.CommandLine.Perform
import Scriptlet.Proofs.CodeText.Assembled
import Scriptlet.Proofs.FileTree

/-!
# What compiling does to files

Compiling reads one file and writes at most one, and it reports and prints on the way.  What it
prints has no influence on what it does, so the rules here speak of files only.

## What is here

* `Ends x files a files'` — **a rule of the calculus**: on a session with these files, whatever has
  been printed, `x` ends with the result `a` and leaves the files `files'`.
* `Ends.deliver_of_writable`, `Ends.deliver_of_unwritable` — how the output is written, and how it
  is left empty.
* `perform_compile` — what a call for compiling does.

The output is opened, and with that emptied, before the code is put into text; a constant for an end
of line is found only then.  So there is one kind of source for which compiling fails and still
changes a file, and the failure is not one that the program answers for.
-/

set_option autoImplicit false
namespace Scriptlet.CommandLine

/-! ## Files before and after -/

/-- On a session with the first files, a computation ends with a result and leaves the other
files. -/
def Ends {α : Type} (x : StateM Session α) (files : FileTree) (a : α) (files' : FileTree) : Prop :=
  ∀ s : Session, s.files = files → (x.run s).1 = a ∧ (x.run s).2.files = files'

namespace Ends

variable {α β : Type} {files files' files'' : FileTree} {a : α} {b : β}

theorem pure (a : α) (files : FileTree) : Ends (Pure.pure a) files a files :=
  fun _ h => ⟨rfl, h⟩

theorem bind {x : StateM Session α} {f : α → StateM Session β} (hx : Ends x files a files')
    (hf : Ends (f a) files' b files'') : Ends (x >>= f) files b files'' := by
  intro s hs
  obtain ⟨ha, hfiles⟩ := hx s hs
  have h := hf (x.run s).2 hfiles
  rw [← ha] at h
  exact h

theorem print (text : String) (files : FileTree) : Ends (Session.host.print text) files () files :=
  fun _ h => ⟨rfl, h⟩

theorem report (text : String) (files : FileTree) :
    Ends (Session.host.report text) files () files :=
  fun _ h => ⟨rfl, h⟩

theorem read (path : String) (files : FileTree) :
    Ends (Session.host.read path) files (files.read path) files := by
  rintro s rfl
  exact ⟨rfl, rfl⟩

theorem put {path : String} {content : ByteArray} (h : files.put path content = .ok files') :
    Ends (Session.put path content) files (.ok ()) files' := by
  rintro s rfl
  simp only [Session.put, StateT.run, h, and_self]

theorem trace (debug : Bool) (part line : String) (files : FileTree) :
    Ends (Session.host.trace debug part line) files () files := by
  cases debug with
  | false => exact pure () files
  | true => exact report _ files

theorem fail (line : String) (files : FileTree) :
    Ends (Session.host.fail line) files (.exit 1) files :=
  (report _ files).bind (pure _ files)

theorem forM {f : α → StateM Session Unit} (hf : ∀ a, Ends (f a) files () files) (l : List α) :
    Ends (l.forM f) files () files := by
  induction l with
  | nil => exact pure () files
  | cons a l ih => exact (hf a).bind ih

/-! ### Steps of compiling -/

theorem traceAssembly (debug : Bool) (b : Build) (files : FileTree) :
    Ends (CommandLine.traceAssembly Session.host debug b) files () files :=
  (forM (fun _ => trace debug _ _ files) _).bind (trace debug _ _ files)

/-- The stages of a build are printed, up to the listing if there is none. -/
theorem printStages (b : Build) (files : FileTree) :
    Ends (CommandLine.printStages Session.host b) files
      (match b.code.find? (fun i => ¬i.Writable) with
        | none => .ok ()
        | some i => .error (CodeText.unwritable i)) files := by
  refine (print _ files).bind ((print _ files).bind ((forM (fun _ => print _ files) _).bind
    ((print _ files).bind ((CommandLine.Ends.traceAssembly true b files).bind ?_))))
  rw [CodeText.listing_eq]
  cases b.code.find? (fun i => ¬i.Writable) with
  | none => exact (print _ files).bind (pure _ files)
  | some i => exact pure _ files

section Deliver

variable {debug : Bool} {source out : Path} {output : Option String} {b : Build}
  {names : List String}

/-- The output is opened and then filled. -/
theorem writeCode (hpath : (Path.pieces out.text).getLast?.all Path.isPart = true)
    (hleads : files.Leads out.text names) {bytes : ByteArray}
    (hbytes : CodeText.serialize b.code = .ok bytes) :
    Ends (CommandLine.writeCode Session.host debug source out b) files (.exit 0)
      (files.set names bytes) := by
  have hfill : (files.set names ByteArray.empty).put out.text bytes =
      .ok (files.set names bytes) := by
    rw [(hleads.set hpath).put, FileTree.set_set]
  refine (put hleads.put).bind ?_
  rw [hbytes]
  exact (put hfill).bind ((trace debug _ _ _).bind ((print _ _).bind ((print _ _).bind (pure _ _))))

/-- Code that can be written is put in its place, and the call succeeds. -/
theorem deliver_of_writable (hwritable : ∀ i ∈ b.code, i.Writable)
    (hout : outputPath source output = .ok out)
    (hpath : (Path.pieces out.text).getLast?.all Path.isPart = true)
    (hleads : files.Leads out.text names) {bytes : ByteArray}
    (hbytes : CodeText.serialize b.code = .ok bytes) :
    Ends (deliver Session.host debug source output b) files (.exit 0) (files.set names bytes) := by
  refine (CommandLine.Ends.traceAssembly debug b files).bind ?_
  cases debug with
  | true =>
    have hstages := printStages b files
    rw [CodeText.find?_unwritable_eq_none_iff.2 hwritable] at hstages
    refine hstages.bind ?_
    rw [hout]
    exact CommandLine.Ends.writeCode hpath hleads hbytes
  | false =>
    refine (pure (Except.ok ()) files).bind ?_
    rw [hout]
    exact CommandLine.Ends.writeCode hpath hleads hbytes

/-- Code that cannot be written makes the call fail in a way that it does not answer for.  Unless
the stages were printed before, the output has been emptied by then. -/
theorem deliver_of_unwritable {i : Instruction}
    (hfind : b.code.find? (fun i => ¬i.Writable) = some i)
    (hout : outputPath source output = .ok out) (hleads : files.Leads out.text names) :
    Ends (deliver Session.host debug source output b) files
      (.escaped (.unwritable (CodeText.unwritable i)))
      (if debug then files else files.set names ByteArray.empty) := by
  refine (CommandLine.Ends.traceAssembly debug b files).bind ?_
  cases debug with
  | true =>
    have hstages := printStages b files
    rw [hfind] at hstages
    exact hstages.bind (pure _ files)
  | false =>
    refine (pure (Except.ok ()) files).bind ?_
    rw [hout]
    refine (put hleads.put).bind ?_
    rw [CodeText.serialize_eq, hfind]
    exact pure _ _

end Deliver

section Source

variable {debug : Bool} {source : Path} {output : Option String} {bytes : ByteArray}
  {text : String} {outcome : Outcome}

theorem compileSource_of_error [Limits] (hread : files.read source.text = .ok bytes)
    (htext : Text.Utf8.decode bytes = .ok text) {e : BuildError}
    (hbuild : build (Text.unifyNewlines text.toList) = .error e) :
    Ends (compileSource Session.host debug source output) files (.exit 1) files := by
  have h := read source.text files
  rw [hread] at h
  refine h.bind ?_
  simp only [htext, hbuild]
  exact (trace debug _ _ files).bind (fail _ files)

theorem compileSource_of_build [Limits] (hread : files.read source.text = .ok bytes)
    (htext : Text.Utf8.decode bytes = .ok text) {b : Build}
    (hbuild : build (Text.unifyNewlines text.toList) = .ok b)
    (hdeliver : Ends (deliver Session.host debug source output b) files outcome files') :
    Ends (compileSource Session.host debug source output) files outcome files' := by
  have h := read source.text files
  rw [hread] at h
  refine h.bind ?_
  simp only [htext, hbuild]
  exact hdeliver

end Source

end Ends

/-! ## Calls for compiling -/

/-- A source that can be read has a place for its code. -/
theorem exists_outputPath {files : FileTree} {source : Path} (hsource : source.Proper)
    {bytes : ByteArray} (hread : files.read source.text = .ok bytes) (output : Option String) :
    ∃ out, outputPath source output = .ok out ∧ out.Proper := by
  have hcompiled : ∃ out, source.compiled = .ok out ∧ out.Proper := by
    obtain ⟨name, hname⟩ := Option.ne_none_iff_exists'.1
      (mt List.getLast?_eq_none_iff.1 (FileTree.parts_ne_nil_of_read hsource hread))
    have hout : source.compiled = .ok (source.withName (Path.compiledName name)) := by
      rw [Path.compiled, Path.name?, hname]
    exact ⟨_, hout, hsource.compiled hout⟩
  cases output with
  | none => exact hcompiled
  | some path =>
    by_cases hpath : path = ""
    · rw [outputPath, if_pos hpath]
      exact hcompiled
    · rw [outputPath, if_neg hpath]
      exact ⟨_, rfl, Path.proper_ofString path⟩

theorem perform_of_compile [Limits] {arguments : List String} {source : String}
    {output : Option String} {flag : Bool}
    (h : request arguments = .ok ⟨.compile source output, flag⟩) (debug : Bool) :
    perform Session.host debug arguments =
      compileSource Session.host (debug || flag) (Path.ofString source) output := by
  rw [perform, h]
  rfl

/-- **What a call for compiling does.**  The source is there and is text, and the output path leads
to a place for a file.  If the text cannot be built, the call exits with 1 and changes nothing.  If
it can, no file but the output changes.  Then, unless a character constant of the program is an end
of line, the call exits with 0, and the output reads as the code that was built.

With such a constant the call does not exit: a failure escapes it.  By then the output is empty,
unless the stages of the build were to be printed. -/
theorem perform_compile [Limits] {arguments : List String} {source : String}
    {output : Option String} {flag : Bool}
    (hrequest : request arguments = .ok ⟨.compile source output, flag⟩)
    (debug : Bool) {s : Session} {bytes : ByteArray} {text : String}
    (hread : s.files.read (Path.ofString source).text = .ok bytes)
    (htext : Text.Utf8.decode bytes = .ok text) :
    ∃ out, outputPath (Path.ofString source) output = .ok out ∧
      ∀ names, s.files.Leads out.text names →
        let r := (perform Session.host debug arguments).run s
        (∀ e, build (Text.unifyNewlines text.toList) = .error e →
          r.1 = .exit 1 ∧ r.2.files = s.files) ∧
        ∀ b, build (Text.unifyNewlines text.toList) = .ok b →
          (∀ other, other ≠ names → r.2.files.get? other = s.files.get? other) ∧
          ((∀ c, .char c ∈ Stmt.literalsAll b.statements → CodeText.isLineBreak c = false) →
            r.1 = .exit 0 ∧ ∃ content, r.2.files.read out.text = .ok content ∧
              CodeText.deserialize content = .ok b.code) ∧
          ((∃ c, CodeText.isLineBreak c = true ∧ .char c ∈ Stmt.literalsAll b.statements) →
            (∃ c, CodeText.isLineBreak c = true ∧ .char c ∈ Stmt.literalsAll b.statements ∧
              r.1 = .escaped (.unwritable ⟨.lineBreak .constChar c.toString, none⟩)) ∧
              if debug || flag then r.2.files = s.files
              else r.2.files.read out.text = .ok ByteArray.empty) := by
  obtain ⟨out, hout, hproper⟩ := exists_outputPath (Path.proper_ofString source) hread output
  refine ⟨out, hout, fun names hleads => ?_⟩
  rw [perform_of_compile hrequest]
  have hpath := hleads.isPart_last hproper
  refine ⟨fun e he => Ends.compileSource_of_error hread htext he s rfl, fun b hb => ?_⟩
  by_cases hchars : ∃ c, CodeText.isLineBreak c = true ∧ .char c ∈ Stmt.literalsAll b.statements
  · obtain ⟨c, hc, hmem, hfind⟩ := find?_unwritable_of_build hb hchars
    obtain ⟨houtcome, hfiles⟩ := Ends.compileSource_of_build hread htext hb
      (.deliver_of_unwritable hfind hout hleads) s rfl
    refine ⟨fun other hother => ?_, fun hnone => ?_, fun _ => ⟨⟨c, hc, hmem, houtcome⟩, ?_⟩⟩
    · rw [hfiles]
      split
      · rfl
      · rw [FileTree.get?_set, if_neg hother]
    · exact nomatch hc.symm.trans (hnone c hmem)
    · rw [hfiles]
      split
      · rfl
      · exact hleads.read_set hpath
  · have hnone : ∀ c, .char c ∈ Stmt.literalsAll b.statements → CodeText.isLineBreak c = false := by
      intro c hmem
      by_contra hc
      exact hchars ⟨c, Bool.eq_true_of_not_eq_false hc, hmem⟩
    have hwritable := writable_of_build hb hnone
    have hbytes := CodeText.serialize_eq_ok_iff.2 ⟨hwritable, rfl⟩
    obtain ⟨houtcome, hfiles⟩ := Ends.compileSource_of_build hread htext hb
      (.deliver_of_writable hwritable hout hpath hleads hbytes) s rfl
    refine ⟨fun other hother => ?_, fun _ => ⟨houtcome, _, ?_, deserialize_of_build hb hbytes⟩,
      fun h => absurd h hchars⟩
    · rw [hfiles, FileTree.get?_set, if_neg hother]
    · rw [hfiles]
      exact hleads.read_set hpath

/-- A string with a line feed in it is no obstacle. -/
theorem perform_compile_string :
    let _ : Limits := ⟨985, 491⟩
    let s : Session := { files := .ofList [("a.cpy", "print(\"\n\");".toUTF8)] }
    let r := (perform Session.host false ["compile", "a.cpy"]).run s
    r.1 = .exit 0 ∧ ∃ b content, build "print(\"\n\");".toList = .ok b ∧
      r.2.files.read "a.cpyc" = .ok content ∧ CodeText.deserialize content = .ok b.code := by
  intro limits s
  have hrequest : request ["compile", "a.cpy"] = .ok ⟨.compile "a.cpy" none, false⟩ := rfl
  have hread : s.files.read (Path.ofString "a.cpy").text = .ok "print(\"\n\");".toUTF8 := rfl
  obtain ⟨out, hout, h⟩ := perform_compile hrequest false hread (Text.Utf8.decode_toUTF8 _)
  obtain rfl : out = ⟨0, ["a.cpyc"]⟩ := (Except.ok.inj hout).symm
  obtain ⟨-, hok⟩ := h ["a.cpyc"] ⟨_, .vacant, rfl⟩
  obtain ⟨-, hwritten, -⟩ := hok _ build_print_string
  obtain ⟨houtcome, content, hcontent, hcode⟩ := hwritten fun c hc => by
    simp [Stmt.literalsAll, Stmt.literals, Expr.literals] at hc
  exact ⟨houtcome, _, content, build_print_string, hcontent, hcode⟩

/-- **Compiling is not all or nothing.**  The character constant of a line feed passes every check
of the text; the call fails all the same, does not exit, and the code that was there before is
lost. -/
theorem perform_compile_line_feed :
    let _ : Limits := ⟨985, 491⟩
    let s : Session :=
      { files := .ofList [("a.cpy", "print('\n');".toUTF8),
          ("a.cpyc", "#CPY_BYTECODE v1.0\nHALT\n".toUTF8)] }
    let r := (perform Session.host false ["compile", "a.cpy"]).run s
    (∃ b, build "print('\n');".toList = .ok b) ∧
      r.1 = .escaped (.unwritable ⟨.lineBreak .constChar "\n", none⟩) ∧
      s.files.read "a.cpyc" = .ok "#CPY_BYTECODE v1.0\nHALT\n".toUTF8 ∧
      r.2.files.read "a.cpyc" = .ok ByteArray.empty := by
  intro limits s
  have hrequest : request ["compile", "a.cpy"] = .ok ⟨.compile "a.cpy" none, false⟩ := rfl
  have hread : s.files.read (Path.ofString "a.cpy").text = .ok "print('\n');".toUTF8 := rfl
  have hout : outputPath (Path.ofString "a.cpy") none = .ok ⟨0, ["a.cpyc"]⟩ := rfl
  have hleads : s.files.Leads (Path.text ⟨0, ["a.cpyc"]⟩) ["a.cpyc"] := ⟨_, .file _, rfl⟩
  have hpath : (Path.pieces (Path.text ⟨0, ["a.cpyc"]⟩)).getLast?.all Path.isPart = true := rfl
  obtain ⟨c, -, hmem, hfind⟩ := find?_unwritable_of_build build_print_char
    ⟨'\n', by decide, List.mem_cons_self⟩
  obtain rfl : c = '\n' := by
    simpa [Stmt.literalsAll, Stmt.literals, Expr.literals] using hmem
  have hends : Ends (perform Session.host false ["compile", "a.cpy"]) s.files
      (.escaped (.unwritable ⟨.lineBreak .constChar "\n", none⟩))
      (s.files.set ["a.cpyc"] ByteArray.empty) := by
    rw [perform_of_compile hrequest]
    exact .compileSource_of_build hread (Text.Utf8.decode_toUTF8 _) build_print_char
      (.deliver_of_unwritable hfind hout hleads)
  obtain ⟨houtcome, hfiles⟩ := hends s rfl
  refine ⟨⟨_, build_print_char⟩, houtcome, rfl, ?_⟩
  rw [hfiles]
  exact hleads.read_set hpath

end Scriptlet.CommandLine
