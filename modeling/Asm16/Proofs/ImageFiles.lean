import Asm16.Command.Run
import Asm16.Proofs.Placement

/-!
# Image files

A file holds the words of an image two bytes each, in either byte order. `ByteOrder.words` reads
back what `ByteOrder.bytes` writes, and the other way round but for an odd byte at the end. So an
image that is restored from a file has the words of the file, cut or filled up with zeros to its own
size (`Image.restore_save`), and its file is the old one cut or filled up in the same way
(`Image.save_restore`). The end of a file is no error, wherever it is; what stops the reading before
the image is full is one (`Image.error_restore`).

A program that is assembled leaves zeros behind its own words, so the command loses nothing by
leaving them out of the file (`image_files`).
-/

namespace Asm16

/-! ## Words and bytes -/

namespace ByteOrder

variable (order : ByteOrder)

theorem toNat_join (hi lo : UInt8) :
    (hi.toUInt16 <<< 8 ||| lo.toUInt16).toNat = hi.toNat * 256 + lo.toNat := by
  have hhi : hi.toNat <<< 8 < 65536 := by
    have := hi.toNat_lt
    rw [Nat.shiftLeft_eq]
    omega
  have hlo : lo.toNat < 2 ^ 8 := lo.toNat_lt
  calc (hi.toUInt16 <<< 8 ||| lo.toUInt16).toNat
      = hi.toNat <<< 8 % 65536 ||| lo.toNat := by simp
    _ = hi.toNat <<< 8 + lo.toNat := by
      rw [Nat.mod_eq_of_lt hhi, Nat.shiftLeft_add_eq_or_of_lt hlo]
    _ = hi.toNat * 256 + lo.toNat := by rw [Nat.shiftLeft_eq]

theorem toNat_high (w : UInt16) : (w >>> 8).toUInt8.toNat = w.toNat / 256 := by
  have := w.toNat_lt
  rw [UInt16.toNat_toUInt8, UInt16.toNat_shiftRight, Nat.shiftRight_eq_div_pow]
  exact Nat.mod_eq_of_lt (by simp; omega)

theorem join_halves (w : UInt16) : (w >>> 8).toUInt8.toUInt16 <<< 8 ||| w.toUInt8.toUInt16 = w := by
  apply UInt16.toNat_inj.1
  rw [toNat_join, toNat_high, UInt16.toNat_toUInt8]
  omega

theorem high_join (hi lo : UInt8) : ((hi.toUInt16 <<< 8 ||| lo.toUInt16) >>> 8).toUInt8 = hi := by
  have := lo.toNat_lt
  apply UInt8.toNat_inj.1
  rw [toNat_high, toNat_join]
  omega

theorem low_join (hi lo : UInt8) : (hi.toUInt16 <<< 8 ||| lo.toUInt16).toUInt8 = lo := by
  have := lo.toNat_lt
  apply UInt8.toNat_inj.1
  rw [UInt16.toNat_toUInt8, toNat_join]
  omega

theorem exists_bytes (w : UInt16) : ∃ a b, order.bytes w = [a, b] ∧ order.word a b = w := by
  cases order with
  | big => exact ⟨_, _, rfl, join_halves w⟩
  | little => exact ⟨_, _, rfl, join_halves w⟩

theorem bytes_word (a b : UInt8) : order.bytes (order.word a b) = [a, b] := by
  cases order with
  | big => rw [word, bytes, high_join, low_join]
  | little => rw [word, bytes, high_join, low_join]

theorem length_flatMap_bytes (ws : List UInt16) :
    (ws.flatMap order.bytes).length = 2 * ws.length := by
  induction ws with
  | nil => rfl
  | cons w ws ih =>
    obtain ⟨a, b, hbytes, -⟩ := order.exists_bytes w
    rw [List.flatMap_cons, hbytes, List.length_append, ih]
    simp only [List.length_cons, List.length_nil]
    omega

/-- Words are read back from their bytes. -/
theorem words_flatMap_bytes (ws : List UInt16) : order.words (ws.flatMap order.bytes) = ws := by
  induction ws with
  | nil => rfl
  | cons w ws ih =>
    obtain ⟨a, b, hbytes, hword⟩ := order.exists_bytes w
    rw [List.flatMap_cons, hbytes]
    show order.word a b :: order.words (ws.flatMap order.bytes) = w :: ws
    rw [hword, ih]

/-- The bytes of the words of a file are those of the file, less an odd one. -/
theorem flatMap_bytes_words (file : Bytes) :
    (order.words file).flatMap order.bytes = file.take (file.length / 2 * 2) := by
  fun_induction words order file with
  | case1 a b rest ih =>
    have hlen : (a :: b :: rest).length / 2 * 2 = rest.length / 2 * 2 + 1 + 1 := by
      simp only [List.length_cons]
      omega
    rw [List.flatMap_cons, ih, bytes_word, hlen]
    rfl
  | case2 file hshort =>
    have hlen : file.length / 2 * 2 = 0 := by
      rcases file with _ | ⟨a, _ | ⟨b, rest⟩⟩
      · rfl
      · simp
      · exact absurd rfl (hshort a b rest)
    rw [hlen]
    rfl

theorem length_words (file : Bytes) : (order.words file).length = file.length / 2 := by
  have hlen := congrArg List.length (order.flatMap_bytes_words file)
  rw [length_flatMap_bytes, List.length_take] at hlen
  omega

theorem words_take (n : Nat) (file : Bytes) :
    order.words (file.take (2 * n)) = (order.words file).take n := by
  induction n generalizing file with
  | zero => rfl
  | succ n ih =>
    rcases file with _ | ⟨a, _ | ⟨b, rest⟩⟩
    · rfl
    · rfl
    · exact congrArg (order.word a b :: ·) (ih rest)

theorem flatMap_bytes_replicate (n : Nat) :
    (List.replicate n (0 : UInt16)).flatMap order.bytes = List.replicate (2 * n) 0 := by
  have hzero : order.bytes 0 = [0, 0] := by cases order <;> rfl
  induction n with
  | zero => rfl
  | succ n ih =>
    rw [List.replicate_succ, List.flatMap_cons, ih, hzero]
    rfl

theorem flatMap_bytes_take (n : Nat) (ws : List UInt16) :
    (ws.take n).flatMap order.bytes = (ws.flatMap order.bytes).take (2 * n) := by
  induction ws generalizing n with
  | nil => simp
  | cons w ws ih =>
    cases n with
    | zero => rfl
    | succ n =>
      obtain ⟨a, b, hbytes, -⟩ := order.exists_bytes w
      rw [List.take_succ_cons, List.flatMap_cons, List.flatMap_cons, ih, hbytes]
      rfl

end ByteOrder

/-! ## Saving and restoring -/

namespace Image

variable {order : ByteOrder}

theorem eq_of_toList {img other : Image} (h : img.words.toList = other.words.toList) :
    img = other := by
  cases img
  cases other
  obtain rfl := Array.toList_inj.1 h
  rfl

theorem length_save (img : Image) (order : ByteOrder) : (img.save order).length = 2 * img.size := by
  rw [save, ByteOrder.length_flatMap_bytes, length_toList]

theorem readFull_fst (input : Input) (n : Nat) : (input.readFull n).1 = input.bytes.take n := by
  unfold Input.readFull
  split
  · rfl
  · rename_i hshort
    exact (List.take_of_length_le (Nat.le_of_not_le hshort)).symm

section Restore

variable (target : Image) (order : ByteOrder) (input : Input)

theorem restore_image : (target.restore order input).image =
    (target.cleared.write 0 ((order.words input.bytes).take target.size)).1 := by
  rw [← order.words_take, ← readFull_fst]
  rfl

theorem count_restore :
    (target.restore order input).count = min input.bytes.length (2 * target.size) := by
  have hcount : (target.restore order input).count = (input.readFull (2 * target.size)).1.length :=
    rfl
  rw [hcount, readFull_fst, List.length_take, Nat.min_comm]

/-- Only what goes wrong before the image is full is an error. -/
theorem error_restore : (target.restore order input).error =
    if input.bytes.length < 2 * target.size then input.failure.map .device else none := by
  unfold restore Input.readFull
  by_cases hfull : 2 * target.size ≤ input.bytes.length
  · simp only [if_pos hfull, if_neg (Nat.not_lt.2 hfull)]
  · simp only [if_neg hfull, if_pos (Nat.lt_of_not_le hfull)]
    cases input.failure with
    | some message => rfl
    | none => cases input.bytes.isEmpty <;> rfl

/-- A restored image has the words of the file, cut or filled up with zeros to its size. -/
theorem toList_restore : (target.restore order input).image.words.toList =
    (order.words input.bytes).take target.size ++
      List.replicate (target.size - input.bytes.length / 2) 0 := by
  have hcleared : target.cleared.words.toList = [] ++ List.replicate target.size 0 :=
    toList_cleared target
  obtain ⟨out, hwrite, hout⟩ := write_eq hcleared ((order.words input.bytes).take target.size)
  have himage : (target.restore order input).image = out := by
    rw [restore_image]
    exact congrArg Prod.fst hwrite
  have hrest : target.size - ((order.words input.bytes).take target.size).length =
      target.size - input.bytes.length / 2 := by
    rw [List.length_take, order.length_words]
    omega
  rw [himage, hout, List.nil_append, List.take_take, Nat.min_self, hrest]

end Restore

theorem restore_save (img target : Image) (order : ByteOrder) (failure : Option Bytes) :
    (target.restore order ⟨img.save order, failure⟩).image.words.toList =
      img.words.toList.take target.size ++ List.replicate (target.size - img.size) 0 := by
  rw [toList_restore, length_save, Nat.mul_div_cancel_left _ (by decide), save,
    order.words_flatMap_bytes]

theorem save_restore (target : Image) (order : ByteOrder) (input : Input) :
    (target.restore order input).image.save order =
      input.bytes.take ((target.restore order input).count / 2 * 2) ++
        List.replicate (2 * target.size - (target.restore order input).count / 2 * 2) 0 := by
  have hcount : (target.restore order input).count / 2 * 2 =
      min (2 * target.size) (input.bytes.length / 2 * 2) := by
    rw [count_restore]
    omega
  rw [save, toList_restore, List.flatMap_append, order.flatMap_bytes_take,
    order.flatMap_bytes_words, order.flatMap_bytes_replicate, List.take_take, hcount]
  congr 2
  omega

section Zeros

variable {img : Image} {n : Nat} {ws : List UInt16}
  (hws : img.words.toList = ws ++ List.replicate n 0)
include hws

theorem toList_take : (img.take ws.length).words.toList = ws := by
  rw [take, Array.toList_extract, List.extract_eq_take_drop, Nat.sub_zero, List.drop_zero, hws,
    List.take_left]

theorem save_take_append (order : ByteOrder) :
    (img.take ws.length).save order ++ List.replicate (2 * n) 0 = img.save order := by
  rw [save, save, toList_take hws, hws, List.flatMap_append, order.flatMap_bytes_replicate]

/-- Zeros at the end of an image need not be in its file. -/
theorem restore_save_take {target : Image} (hsize : target.size = img.size) (order : ByteOrder) :
    target.restore order { bytes := (img.take ws.length).save order } =
      ⟨img, ((img.take ws.length).save order).length, none⟩ := by
  have hlen : img.size = ws.length + n := by
    rw [← length_toList, hws, List.length_append, List.length_replicate]
  have htake : (img.take ws.length).size = ws.length := by
    rw [← length_toList, toList_take hws]
  have himage :
      (target.restore order { bytes := (img.take ws.length).save order }).image = img := by
    refine eq_of_toList ?_
    rw [restore_save, htake, toList_take hws, hws, hsize, hlen,
      List.take_of_length_le (by omega), Nat.add_sub_cancel_left]
  have hcount := target.count_restore order { bytes := (img.take ws.length).save order }
  rw [length_save, htake, hsize, hlen, Nat.min_eq_left (by omega)] at hcount
  have herror := target.error_restore order { bytes := (img.take ws.length).save order }
  rw [Option.map_none, ite_self] at herror
  rw [length_save, htake]
  generalize target.restore order { bytes := (img.take ws.length).save order } = r at *
  obtain ⟨image, count, error⟩ := r
  obtain rfl : image = img := himage
  obtain rfl : count = 2 * ws.length := hcount
  obtain rfl : error = none := herror
  rfl

end Zeros

end Image

/-! ## The command -/

namespace Command

variable {d : Directory} {o : Options} {operands : List Bytes}

/-- A program that is loaded is one that is parsed. -/
theorem exists_parse_of_load {asm : Assembler} {name : Bytes} {r : Assembly × Option Error}
    (h : (asm.load name).result = .ok r) : ∃ text, (asm.parse name text).result = .ok r := by
  unfold Assembler.load at h
  split at h
  · cases h
  · simp only at h
    split at h
    · cases h
    · simp only [Assembler.parseContents, Logged.result_bind, Logged.result_lift] at h
      obtain ⟨defines, -, h⟩ := bind_eq_ok.1 h
      obtain ⟨text, htext, -⟩ := bind_eq_ok.1 h
      cases htext
    · exact ⟨_, h⟩

theorem exists_accepts_of_loadProgram {asm : Assembler} {name : Bytes} {a : Assembly}
    (h : (loadProgram asm name).result = .ok a) : ∃ text, asm.Accepts name text a := by
  unfold loadProgram at h
  cases hload : (asm.load name).result with
  | error e => simp [hload, refuse] at h
  | ok r =>
    obtain ⟨program, e⟩ := r
    cases e with
    | some e =>
      simp only [hload, Logged.result_bind] at h
      obtain ⟨-, -, h⟩ := bind_eq_ok.1 h
      obtain ⟨-, -, h⟩ := bind_eq_ok.1 h
      cases h
    | none =>
      obtain rfl : program = a := by simpa [hload] using h
      exact exists_parse_of_load hload

/-- What a run that makes an image file goes through. -/
theorem build_eq_ok {product : Product} : (build d o operands).result = .ok product ↔
    ∃ source settings project name program img, operands = [source] ∧
      o.settings? d = some settings ∧
      inside? (d.absolute settings.workspaceRoot) (d.absolute settings.projectRoot) =
        some project ∧
      inside? (d.absolute settings.workspaceRoot) (d.absolute source) = some name ∧
      (loadProgram (assembler settings
        ⟨d.filesIn (d.absolute settings.workspaceRoot), project, "."⟩ o.defines) name).result =
          .ok program ∧
      program.assemble (.zeros settings.imageWords) = (img, none) ∧
      product = ⟨o.imageFile source, o.contents settings program img, o.report program img⟩ := by
  constructor
  · intro h
    rcases operands with _ | ⟨source, _ | ⟨second, rest⟩⟩
    · cases h
    · rw [build, buildSource] at h
      cases hsettings : o.settings? d with
      | none => simp [hsettings, refuse] at h
      | some settings =>
        simp only [hsettings] at h
        split at h
        · rename_i project hproject
          split at h
          · rename_i name hname
            simp only [Logged.result_bind] at h
            obtain ⟨program, hprogram, h⟩ := bind_eq_ok.1 h
            rcases himg : program.assemble (.zeros settings.imageWords) with ⟨img, _ | e⟩
            · simp only [himg, Logged.result_bind, Logged.result_record] at h
              exact ⟨source, settings, project, name, program, img, rfl, rfl, hproject, hname,
                hprogram, himg, (Except.ok.inj h).symm⟩
            · simp [himg, refuse] at h
          · cases h
        · cases h
    · cases h
  · rintro ⟨source, settings, project, name, program, img, rfl, hsettings, hproject, hname, hload,
      himg, rfl⟩
    simp [build, buildSource, hsettings, hproject, hname, hload, himg]

/-- Nothing but the contents of the image file depends on whether it is trimmed. -/
theorem exists_build_trim {product : Product} (h : (build d o operands).result = .ok product) :
    ∃ settings asm name text program img, o.settings? d = some settings ∧
      Assembler.Accepts asm name text program ∧
      program.assemble (.zeros settings.imageWords) = (img, none) ∧
      ∀ b, ∃ p, (build d { o with trim := b } operands).result = .ok p ∧
        p.contents = { o with trim := b }.contents settings program img := by
  obtain ⟨source, settings, project, name, program, img, hoperands, hsettings, hproject, hname,
    hload, himg, -⟩ := build_eq_ok.1 h
  obtain ⟨text, ha⟩ := exists_accepts_of_loadProgram hload
  refine ⟨settings, _, name, text, program, img, hsettings, ha, himg, fun b => ?_⟩
  exact ⟨_, build_eq_ok.2 ⟨source, settings, project, name, program, img, hoperands, hsettings,
    hproject, hname, hload, himg, rfl⟩, rfl⟩

/-- The image file of an assembled program : without the words behind the program it is shorter by
zero bytes only, and the image is restored from it. -/
theorem contents_of_assemble {asm : Assembler} {name text : Bytes} {a : Assembly}
    {start img : Image} (ha : asm.Accepts name text a) (himg : a.assemble start = (img, none))
    (o : Options) (s : Settings) :
    (({ o with trim := true }.contents s a img).length : Int) = 2 * a.size ∧
    { o with trim := false }.contents s a img =
      { o with trim := true }.contents s a img ++ List.replicate (2 * (img.size - a.size.toNat)) 0 ∧
    ∀ target : Image, target.size = start.size →
      target.restore s.byteOrder { bytes := { o with trim := true }.contents s a img } =
        ⟨img, ({ o with trim := true }.contents s a img).length, none⟩ := by
  obtain ⟨hpacked, hle, hwords⟩ := Assembly.packed_of_assemble ha himg
  have hsizes := Assembly.size_of_packed hpacked
  have himgSize : img.size = start.size := by
    rw [← Image.length_toList, hwords, List.length_append, List.length_replicate]
    omega
  rw [← himgSize] at hwords hle ⊢
  have htrim : { o with trim := true }.contents s a img =
      (img.take (a.lines.flatMap Line.encoded).length).save s.byteOrder := by
    rw [Options.contents, if_pos rfl, hsizes, Int.toNat_natCast, Nat.min_eq_left hle]
  have hfull := Image.save_take_append hwords s.byteOrder
  refine ⟨?_, ?_, fun target hsize => by rw [htrim, Image.restore_save_take hwords hsize]⟩
  · have hlen := congrArg List.length hfull
    rw [List.length_append, List.length_replicate, img.length_save] at hlen
    rw [htrim]
    omega
  · rw [htrim, hsizes, Int.toNat_natCast]
    exact hfull.symm

/-- Image files in both byte orders. An image that is restored from the file of another one has its
words, cut or filled up with zeros, whatever it held; any file that is restored and saved again is
cut to as many bytes as were taken from it, less an odd one, and filled up with zeros to the size of
the image. The bytes that were taken are counted, and a file that only ends too early is no error.
The trimmed file of an assembled program is the full one without zero bytes at the end, and an image
of the right size is restored from it; the command makes the one or the other as it is told. -/
theorem image_files :
    (∀ (order : ByteOrder) (img target : Image) (failure : Option Bytes),
      (target.restore order ⟨img.save order, failure⟩).image.words.toList =
        img.words.toList.take target.size ++ List.replicate (target.size - img.size) 0) ∧
    (∀ (order : ByteOrder) (target : Image) (input : Input),
      (target.restore order input).count = min input.bytes.length (2 * target.size) ∧
      (target.restore order input).error = (if input.bytes.length < 2 * target.size then
        input.failure.map .device else none) ∧
      (target.restore order input).image.save order =
        input.bytes.take ((target.restore order input).count / 2 * 2) ++
          List.replicate (2 * target.size - (target.restore order input).count / 2 * 2) 0) ∧
    (∀ (asm : Assembler) (name text : Bytes) (a : Assembly) (start img : Image),
      asm.Accepts name text a → a.assemble start = (img, none) → ∀ (o : Options) (s : Settings),
      (({ o with trim := true }.contents s a img).length : Int) = 2 * a.size ∧
      { o with trim := false }.contents s a img = { o with trim := true }.contents s a img ++
        List.replicate (2 * (img.size - a.size.toNat)) 0 ∧
      ∀ target : Image, target.size = start.size →
        target.restore s.byteOrder { bytes := { o with trim := true }.contents s a img } =
          ⟨img, ({ o with trim := true }.contents s a img).length, none⟩) ∧
    ∀ (d : Directory) (o : Options) (operands : List Bytes) (product : Product),
      (build d o operands).result = .ok product →
      ∃ settings asm name text a img, o.settings? d = some settings ∧
        Assembler.Accepts asm name text a ∧
        a.assemble (.zeros settings.imageWords) = (img, none) ∧
        ∀ b, ∃ p, (build d { o with trim := b } operands).result = .ok p ∧
          p.contents = { o with trim := b }.contents settings a img :=
  ⟨fun order img target => Image.restore_save img target order,
    fun order target input => ⟨target.count_restore order input, target.error_restore order input,
      target.save_restore order input⟩,
    fun _ _ _ _ _ _ ha himg => contents_of_assemble ha himg,
    fun _ _ _ _ h => exists_build_trim h⟩

/-- A project with a small image of low bytes first, and a document that includes another one. -/
def sampleDirectory : Directory :=
  ⟨"/w", [("/w/devasm.cue", "imageWords: 9\nbyteOrder: \"little\""),
    ("/w/a.dasm", "SET A, end\n.include b.dasm\nend:"), ("/w/b.dasm", "DAT 0x1234, 0")]⟩

theorem sample_image_files :
    ((Image.zeros 2).restore .little ⟨[1, 2, 3], none⟩).image.save .little = [1, 2, 0, 0] ∧
    ((Image.zeros 2).restore .little ⟨[1, 2, 3], some "disk"⟩).error = some (.device "disk") ∧
    ∃ full trimmed img, (build sampleDirectory {} ["a.dasm"]).result = .ok full ∧
      (build sampleDirectory { trim := true } ["a.dasm"]).result = .ok trimmed ∧
      trimmed.contents = [1, 124, 4, 0, 52, 18, 0, 0] ∧
      (∃ k, full.contents = trimmed.contents ++ List.replicate k 0) ∧
      ((Image.zeros 9).write 0 [7, 7]).1.restore .little { bytes := trimmed.contents } =
        ⟨img, 8, none⟩ ∧
      img.save .little = full.contents := by
  obtain ⟨-, hfile, hprogram, hcommand⟩ := image_files
  have hsmall := (hfile .little (.zeros 2) ⟨[1, 2, 3], none⟩).2.2
  have hdisk := (hfile .little (.zeros 2) ⟨[1, 2, 3], some "disk"⟩).2.1
  refine ⟨by rw [hsmall]; decide, by rw [hdisk]; decide, ?_⟩
  obtain ⟨product, hproduct, -⟩ := exists_ok (p := fun _ => true)
    (show (build sampleDirectory {} ["a.dasm"]).result.toOption.any _ = true by decide +kernel)
  obtain ⟨settings, asm, name, text, a, img, hsettings, ha, himg, hbuild⟩ :=
    hcommand sampleDirectory {} ["a.dasm"] product hproduct
  obtain ⟨full, hfull, hfullContents⟩ := hbuild false
  obtain ⟨trimmed, htrimmed, htrimmedContents⟩ := hbuild true
  obtain ⟨-, hzeros, hrestore⟩ := hprogram asm name text a _ img ha himg {} settings
  obtain ⟨horder, hwords⟩ : settings.byteOrder = .little ∧ settings.imageWords = 9 := by
    have h : (({} : Options).settings? sampleDirectory).all
        (fun s => s.byteOrder == .little && s.imageWords == 9) = true := by decide +kernel
    simpa [hsettings] using h
  have hcontents : trimmed.contents = [1, 124, 4, 0, 52, 18, 0, 0] := by
    have h : (build sampleDirectory { trim := true } ["a.dasm"]).result.toOption.all
        (·.contents == [1, 124, 4, 0, 52, 18, 0, 0]) = true := by decide +kernel
    rw [htrimmed] at h
    simpa [Except.toOption] using h
  rw [← hfullContents, ← htrimmedContents] at hzeros
  rw [← htrimmedContents, horder, hcontents] at hrestore
  refine ⟨full, trimmed, img, hfull, htrimmed, hcontents, ⟨_, hzeros⟩, ?_, ?_⟩
  · rw [hcontents]
    exact hrestore _ (by rw [hwords]; decide)
  · rw [hfullContents, ← horder]
    rfl

end Command

end Asm16
