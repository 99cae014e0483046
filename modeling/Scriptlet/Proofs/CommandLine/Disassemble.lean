import Scriptlet.CommandLine.Perform
import Scriptlet.Proofs.CodeText.NormalForm

/-!
# What listing code prints

A call for a listing reads one file and changes none.  Code that can be read from the file is
listed, as long as it can be written again.

* `Prints x files a text` — **a rule of the calculus**: on a session with these files, `x` ends with
  the result `a`, has printed `text` and leaves the files as they are.
* `Prints.withCode`, `Prints.listCode` — the two parts of the task.
* `written_again_of_read` — what becomes of a text that can be read.
-/

set_option autoImplicit false
namespace Scriptlet.CommandLine

/-! ## What is printed -/

/-- On a session with some files, a computation ends with a result, has printed a text after what
was printed before, and has left the files as they were. -/
def Prints {α : Type} (x : StateM Session α) (files : FileTree) (a : α) (text : String) : Prop :=
  ∀ s : Session, s.files = files →
    (x.run s).1 = a ∧ (x.run s).2.files = files ∧ (x.run s).2.printed = s.printed ++ text

namespace Prints

variable {α β : Type} {files : FileTree} {a : α} {b : β} {text text' : String}

theorem pure (a : α) (files : FileTree) : Prints (Pure.pure a) files a "" :=
  fun s h => ⟨rfl, h, (String.append_empty (s := s.printed)).symm⟩

theorem bind {x : StateM Session α} {f : α → StateM Session β} (hx : Prints x files a text)
    (hf : Prints (f a) files b text') : Prints (x >>= f) files b (text ++ text') := by
  intro s hs
  obtain ⟨ha, hfiles, hprinted⟩ := hx s hs
  have h := hf (x.run s).2 hfiles
  rw [← ha, hprinted, String.append_assoc] at h
  exact h

/-- A first step that prints nothing. -/
theorem bind_silent {x : StateM Session α} {f : α → StateM Session β} (hx : Prints x files a "")
    (hf : Prints (f a) files b text) : Prints (x >>= f) files b text := by
  have h := hx.bind hf
  rwa [String.empty_append] at h

theorem print (text : String) (files : FileTree) : Prints (Session.host.print text) files () text :=
  fun _ h => ⟨rfl, h, rfl⟩

theorem report (text : String) (files : FileTree) :
    Prints (Session.host.report text) files () "" :=
  fun s h => ⟨rfl, h, (String.append_empty (s := s.printed)).symm⟩

theorem read (path : String) (files : FileTree) :
    Prints (Session.host.read path) files (files.read path) "" := by
  rintro s rfl
  exact ⟨rfl, rfl, (String.append_empty (s := s.printed)).symm⟩

theorem trace (debug : Bool) (part line : String) (files : FileTree) :
    Prints (Session.host.trace debug part line) files () "" := by
  cases debug with
  | false => exact pure () files
  | true => exact report _ files

theorem traceReading (debug : Bool) (bytes : ByteArray)
    (program : Except CodeText.Error (List Instruction)) (files : FileTree) :
    Prints (CommandLine.traceReading Session.host debug bytes program) files () "" := by
  rw [CommandLine.traceReading.eq_def]
  cases CodeText.decodeText bytes with
  | error e =>
    cases program with
    | error e => exact pure () files
    | ok code => exact trace debug _ _ files
  | ok text =>
    by_cases hheader : CodeText.hasHeader (Text.lines text.toList) = true
    · simp only [hheader, if_true]
      refine (trace debug _ _ files).bind_silent ?_
      cases program with
      | error e => exact pure () files
      | ok code => exact trace debug _ _ files
    · simp only [hheader]
      cases program with
      | error e => exact pure () files
      | ok code => exact trace debug _ _ files

/-- Code that can be read from a file is used. -/
theorem withCode {debug : Bool} {path : String} {use : List Instruction → StateM Session Outcome}
    {bytes : ByteArray} {code : List Instruction} {outcome : Outcome}
    (hread : files.read path = .ok bytes) (hcode : CodeText.deserialize bytes = .ok code)
    (huse : Prints (use code) files outcome text) :
    Prints (CommandLine.withCode Session.host debug path use) files outcome text := by
  have h := read path files
  rw [hread] at h
  refine h.bind_silent ((traceReading debug bytes _ files).bind_silent ?_)
  rw [hcode]
  exact huse

theorem listCode {code : List Instruction} {lines : String}
    (h : CodeText.listing code = .ok lines) (files : FileTree) :
    Prints (CommandLine.listCode Session.host code) files (.exit 0) (lines ++ "\n") := by
  have hprint : Prints (CommandLine.listCode Session.host code) files (.exit 0)
      (lines ++ "\n" ++ "") := by
    rw [CommandLine.listCode, h]
    exact (print _ files).bind (pure _ files)
  rwa [String.append_empty] at hprint

end Prints

/-! ## Calls for a listing -/

theorem perform_of_disassemble [Limits] {arguments : List String} {path : String} {flag : Bool}
    (h : request arguments = .ok ⟨.disassemble path, flag⟩) (debug : Bool) :
    perform Session.host debug arguments =
      withCode Session.host (debug || flag) path (listCode Session.host) := by
  rw [perform, h]
  rfl

theorem prints_perform_disassemble [Limits] {arguments : List String} {path : String} {flag : Bool}
    (hrequest : request arguments = .ok ⟨.disassemble path, flag⟩) (debug : Bool)
    {files : FileTree} {bytes : ByteArray} {text lines : String} {program : List Instruction}
    (hbytes : files.read path = .ok bytes) (htext : CodeText.decodeText bytes = .ok text)
    (hread : CodeText.read text = .ok program) (hlines : CodeText.listing program = .ok lines) :
    Prints (perform Session.host debug arguments) files (.exit 0) (lines ++ "\n") := by
  have hcode : CodeText.deserialize bytes = .ok program := by
    rw [CodeText.deserialize, htext]
    exact hread
  rw [perform_of_disassemble hrequest]
  exact .withCode hbytes hcode (.listCode hlines files)

/-- **What can be read can be written again**, up to carriage returns in operands without quotes.
Without them the code that was read has a normal form, which reads as that code, and a listing; and
a call for a listing of a file with that text exits with 0 and prints it.  With one, neither the
code nor its listing can be written, and the error is about the first instruction that has one. -/
theorem written_again_of_read [Limits] {text : String} {program : List Instruction}
    (hread : CodeText.read text = .ok program) :
    ((∀ i ∈ program, ¬i.HoldsReturn) →
      ∃ normal lines, CodeText.write program = .ok normal ∧ CodeText.read normal = .ok program ∧
        CodeText.listing program = .ok lines ∧
        ∀ (arguments : List String) (path : String) (flag debug : Bool) (s : Session)
          (bytes : ByteArray), request arguments = .ok ⟨.disassemble path, flag⟩ →
          s.files.read path = .ok bytes → CodeText.decodeText bytes = .ok text →
          let r := (perform Session.host debug arguments).run s
          r.1 = .exit 0 ∧ r.2.files = s.files ∧ r.2.printed = s.printed ++ (lines ++ "\n")) ∧
    ∀ i, program.find? (fun i => i.HoldsReturn) = some i →
      CodeText.write program = .error ⟨.lineBreak i.opcode (i.operand.getD ""), none⟩ ∧
      CodeText.listing program = .error ⟨.lineBreak i.opcode (i.operand.getD ""), none⟩ := by
  refine ⟨fun hreturn => ?_, fun i hi => CodeText.write_error_of_read hread hi⟩
  obtain ⟨normal, hnormal, hagain⟩ := CodeText.read_write_of_read hread hreturn
  obtain ⟨lines, hlines⟩ := CodeText.listing_of_read hread hreturn
  refine ⟨normal, lines, hnormal, hagain, hlines, ?_⟩
  intro arguments path flag debug s bytes hrequest hbytes htext
  exact prints_perform_disassemble hrequest debug hbytes htext hread hlines s rfl

/-- A text with more after its header, both ends of lines, a blank line and blanks around an
opcode. -/
theorem written_again_of_read_lenient :
    let _ : Limits := ⟨20, 20⟩
    let text := "#CPY_BYTECODE v1.0 x\r\n  LOAD a b\r\n\nHALT \n"
    let s : Session := { files := .ofList [("a.cpyc", text.toUTF8)] }
    let r := (perform Session.host false ["disasm", "a.cpyc"]).run s
    CodeText.read text = .ok [⟨.load, some "a b"⟩, ⟨.halt, none⟩] ∧
      CodeText.write [⟨.load, some "a b"⟩, ⟨.halt, none⟩] =
        .ok "#CPY_BYTECODE v1.0\nLOAD a b\nHALT\n" ∧
      r.1 = .exit 0 ∧ r.2.printed = "   0  LOAD a b\n   1  HALT\n" := by
  intro limits text s
  have hread : CodeText.read text = .ok [⟨.load, some "a b"⟩, ⟨.halt, none⟩] := by decide +kernel
  obtain ⟨hok, -⟩ := written_again_of_read hread
  obtain ⟨normal, lines, hnormal, -, hlines, hcall⟩ := hok (by decide)
  obtain ⟨hexit, -, hprinted⟩ :=
    hcall ["disasm", "a.cpyc"] "a.cpyc" false false s text.toUTF8 rfl rfl
    (by rw [CodeText.decodeText, Text.Utf8.decode_toUTF8]; rfl)
  refine ⟨hread, by decide +kernel, hexit, ?_⟩
  have hlisting : CodeText.listing [⟨.load, some "a b"⟩, ⟨.halt, none⟩] =
      .ok "   0  LOAD a b\n   1  HALT" := by decide +kernel
  obtain rfl : lines = _ := Except.ok.inj (hlines.symm.trans hlisting)
  exact hprinted

/-- **Not everything that can be read can be written again.**  A carriage return inside an operand
is read as part of it, and then neither the code nor its listing can be written. -/
theorem written_again_of_read_return :
    let _ : Limits := ⟨20, 20⟩
    let text := "#CPY_BYTECODE v1.0\nCONST_NUM 1.0\nSTORE a\rb\nHALT\n"
    let program : List Instruction :=
      [⟨.constNumber, some "1.0"⟩, ⟨.store, some "a\rb"⟩, ⟨.halt, none⟩]
    let s : Session := { files := .ofList [("a.cpyc", text.toUTF8)] }
    CodeText.read text = .ok program ∧
      (∀ normal, CodeText.write program ≠ .ok normal) ∧
      (∀ lines, CodeText.listing program ≠ .ok lines) ∧
      ((perform Session.host false ["disasm", "a.cpyc"]).run s).1 =
        .escaped (.unwritable ⟨.lineBreak .store "a\rb", none⟩) := by
  intro limits text program s
  have hread : CodeText.read text = .ok program := by decide +kernel
  obtain ⟨hwrite, hlisting⟩ := CodeText.write_error_of_read hread
    (show program.find? (fun i => i.HoldsReturn) = some ⟨.store, some "a\rb"⟩ by decide +kernel)
  have hcode : CodeText.deserialize text.toUTF8 = .ok program := by
    rw [CodeText.deserialize_toUTF8, hread]
  have hlist : Prints (listCode Session.host program) s.files
      (.escaped (.unwritable ⟨.lineBreak .store "a\rb", none⟩)) "" := by
    rw [listCode, hlisting]
    exact .pure _ _
  refine ⟨hread, fun normal h => ?_, fun lines h => ?_, ?_⟩
  · exact nomatch hwrite.symm.trans h
  · exact nomatch hlisting.symm.trans h
  · rw [perform_of_disassemble rfl]
    exact (Prints.withCode rfl hcode hlist s rfl).1

end Scriptlet.CommandLine
