import WolfCose.EatPsa.Decode
import WolfCose.Lib.Steps

/-!
# What the decoder of PSA maps accepts

The loops over the entries of a claims map and of a component read a map whose labels are all
different.  They read the entries before a label again with the generic walker, so every value
but the last has to be one that this walker accepts.
-/

namespace WolfCose

open Program Cbor Settings EatPsaSettings

/-- Two labels compare as equal exactly if they are. -/
theorem eatPsaLabelsEqual_iff {first second : EatPsaLabel} :
  eatPsaLabelsEqual first second = true ↔ first = second
  := by
  cases first with
  | uint a => cases second <;> simp [eatPsaLabelsEqual]
  | negint a => cases second <;> simp [eatPsaLabelsEqual]
  | text a =>
      cases second with
      | uint b => simp [eatPsaLabelsEqual]
      | negint b => simp [eatPsaLabelsEqual]
      | text b =>
          simp only [eatPsaLabelsEqual, Bool.and_eq_true, Bool.or_eq_true, beq_iff_eq,
            EatPsaLabel.text.injEq]
          constructor
          · rintro ⟨hlen, hzero | hcmp⟩
            · rw [List.eq_nil_of_length_eq_zero hzero] at hlen ⊢
              exact (List.eq_nil_of_length_eq_zero hlen.symm).symm
            · exact (eatPsaConstantCompare_eq_zero hlen).mp hcmp
          · rintro rfl
            exact ⟨rfl, .inr ((eatPsaConstantCompare_eq_zero rfl).mpr rfl)⟩

/-- The label a token stands for. -/
def eatPsaLabelOf (t : Token) : Option EatPsaLabel :=
  match t.major with
  | .uint => some (.uint t.val)
  | .negint => some (.negint t.val)
  | .tstr => some (.text t.data)
  | _ => none

/-- An entry of a map: the token of its label, the label this stands for, and the encoding of its
value. -/
structure EatPsaEntry where
  token : Token
  label : EatPsaLabel
  value : Bytes

/-- The encoding of an entry. -/
def EatPsaEntry.bytes (e : EatPsaEntry) : Bytes := e.token.bytes ++ e.value

/-- The encoding of a list of entries. -/
def eatPsaEntriesBytes (es : List EatPsaEntry) : Bytes := es.flatMap EatPsaEntry.bytes

/-- The encoding of a map with a head and entries. -/
def eatPsaMapBytes (head : Token) (es : List EatPsaEntry) : Bytes := head.bytes ++ eatPsaEntriesBytes es

@[simp]
theorem eatPsaEntriesBytes_nil :
  eatPsaEntriesBytes [] = []
  := rfl

theorem eatPsaEntriesBytes_cons (e : EatPsaEntry) (es : List EatPsaEntry) :
  eatPsaEntriesBytes (e :: es) = e.bytes ++ eatPsaEntriesBytes es
  := rfl

theorem eatPsaEntriesBytes_append (es es' : List EatPsaEntry) :
  eatPsaEntriesBytes (es ++ es') = eatPsaEntriesBytes es ++ eatPsaEntriesBytes es'
  := List.flatMap_append

variable [Settings] [EatPsaSettings]

theorem decodeFlagsValid_eatPsa :
  decodeFlagsValid eatPsaDecodeFlags = true
  := by
  rw [decodeFlagsValid, eatPsaVerify_eq]
  rfl

/-- The value of an entry is a data item, nested as deep as may be. -/
def EatPsaItem (bs : Bytes) : Prop :=
  ∃ d, Items (Accepted eatPsaDecodeFlags) d 1 bs

/-- The label of an entry is an accepted token. -/
structure EatPsaEntry.Labelled (e : EatPsaEntry) : Prop where
  accepted : Accepted eatPsaDecodeFlags e.token
  label_eq : eatPsaLabelOf e.token = some e.label

theorem runs_eatPsaDecodeLabel (ctx : DecCtx) (label : EatPsaLabel) (ctx' : DecCtx) :
  Runs eatPsaDecodeLabel ctx label ctx'
    ↔ ∃ t, Accepted eatPsaDecodeFlags t ∧ ctx.Consumes t.bytes ctx' ∧ eatPsaLabelOf t = some label
  := by
  have branch (t : Token) (ctx : DecCtx) :
      Runs (match (tokenItem t).majorType with
        | .uint => return .uint (tokenItem t).val
        | .negint => return .negint (tokenItem t).val
        | .tstr => return .text (tokenItem t).data
        | _ => throw .cborType : Dec EatPsaLabel) ctx label ctx' ↔ eatPsaLabelOf t = some label ∧ ctx = ctx' := by
    unfold eatPsaLabelOf tokenItem
    split <;> simp_all [runs_pure, runs_throw]
  simp only [eatPsaDecodeLabel, runs_bind, runs_decodeHeadEx, decodeFlagsValid_eatPsa, true_and]
  constructor
  · rintro ⟨_, ctx₁, ⟨t, ht, hc, rfl⟩, hmatch⟩
    obtain ⟨hl, rfl⟩ := (branch t ctx₁).mp hmatch
    exact ⟨t, ht, hc, hl⟩
  · rintro ⟨t, ht, hc, hl⟩
    exact ⟨_, ctx', ⟨t, ht, hc, rfl⟩, (branch t ctx').mpr ⟨hl, rfl⟩⟩

/-! ### Reading the entries again -/

/-- At an entry the scan finds its label, or goes on behind its value. -/
theorem runs_eatPsaScanLoop_entry {label : EatPsaLabel} {d : EatPsaEntry} (hd : d.Labelled) (hitem : EatPsaItem d.value)
    {n before : Nat} {tail : Bytes} {scan : DecCtx} (hrest : scan.rest = d.bytes ++ tail) (hlt : scan.idx < before)
    (r : Bool) (scan' : DecCtx) :
  Runs (eatPsaScanLoop before label (n + 1)) scan r scan'
    ↔ (d.label = label ∧ r = true ∧ scan' = scan.advance d.token.bytes.length)
      ∨ (d.label ≠ label ∧ SkippedValue eatPsaDecodeFlags d.value
        ∧ Runs (eatPsaScanLoop before label n) (scan.advance d.bytes.length) r scan')
  := by
  rw [EatPsaEntry.bytes, List.append_assoc] at hrest
  have hlabel : scan.Consumes d.token.bytes (scan.advance d.token.bytes.length) :=
    DecCtx.consumes_of_rest hrest
  have hvalue : (scan.advance d.token.bytes.length).Consumes d.value (scan.advance d.bytes.length) := by
    rw [EatPsaEntry.bytes, List.length_append, ← DecCtx.advance_advance]
    apply DecCtx.consumes_of_rest
    rw [DecCtx.rest_advance, hrest, List.drop_left]
  simp only [eatPsaScanLoop, runs_bind, runs_get, runs_ite, eatPsaLabelsEqual_iff]
  constructor
  · rintro ⟨_, _, ⟨rfl, rfl⟩, ⟨-, prior, ctx₁, hprior, hrun⟩ | ⟨hge, -⟩⟩
    · obtain ⟨t, ht, hc, hl⟩ := (runs_eatPsaDecodeLabel _ _ _).mp hprior
      obtain ⟨rfl, rfl⟩ := ht.consumes_unique hd.accepted hc hlabel
      obtain rfl : d.label = prior := Option.some.inj (hd.label_eq.symm.trans hl)
      rcases hrun with ⟨heq, hrun⟩ | ⟨hne, _, ctx₂, hskip, hrun⟩
      · obtain ⟨rfl, rfl⟩ := (runs_pure _ _ _ _).mp hrun
        exact .inl ⟨heq, rfl, rfl⟩
      · obtain ⟨bs, hbs, hc⟩ := (runs_skipEx decodeFlagsValid_eatPsa _ _).mp hskip
        obtain ⟨_, hitem⟩ := hitem
        obtain ⟨rfl, rfl⟩ := hc.items_unique hvalue hbs hitem
        exact .inr ⟨hne, hbs, hrun⟩
    · exact absurd hlt hge
  · intro h
    refine ⟨scan, scan, ⟨rfl, rfl⟩, .inl ⟨hlt, d.label, _,
      (runs_eatPsaDecodeLabel _ _ _).mpr ⟨d.token, hd.accepted, hlabel, hd.label_eq⟩, ?_⟩⟩
    rcases h with ⟨heq, rfl, rfl⟩ | ⟨hne, hskip, hrun⟩
    · exact .inl ⟨heq, (runs_pure _ _ _ _).mpr ⟨rfl, rfl⟩⟩
    · exact .inr ⟨hne, (), _, (runs_skipEx decodeFlagsValid_eatPsa _ _).mpr ⟨d.value, hskip, hvalue⟩, hrun⟩

omit [EatPsaSettings] in
/-- A scan that has come to the label ends without a duplicate. -/
theorem runs_eatPsaScanLoop_end {label : EatPsaLabel} (n : Nat) (scan : DecCtx) (r : Bool) (scan' : DecCtx) :
  Runs (eatPsaScanLoop scan.idx label n) scan r scan' ↔ r = false ∧ scan' = scan
  := by
  have hend : Runs (eatPsaScanEnd scan.idx) scan r scan' ↔ r = false ∧ scan' = scan := by
    simp only [eatPsaScanEnd, runs_bind, runs_get, runs_failIf, runs_pure]
    grind
  cases n with
  | zero => exact hend
  | succ n => simpa [eatPsaScanLoop, runs_bind, runs_get, runs_ite] using hend

/-- The scan over the entries before a label ends without a duplicate exactly if the generic
walker accepts their values and their labels are different from it, and with one only if one of
them has the label. -/
theorem runs_eatPsaScanLoop {label : EatPsaLabel} (done : List EatPsaEntry)
    (hdone : ∀ d ∈ done, d.Labelled ∧ EatPsaItem d.value) {n : Nat} (hn : done.length ≤ n) {tail : Bytes}
    (scan : DecCtx) (hrest : scan.rest = eatPsaEntriesBytes done ++ tail) (scan' : DecCtx) :
  (Runs (eatPsaScanLoop (scan.idx + (eatPsaEntriesBytes done).length) label n) scan false scan'
    ↔ (∀ d ∈ done, SkippedValue eatPsaDecodeFlags d.value ∧ d.label ≠ label)
      ∧ scan' = scan.advance (eatPsaEntriesBytes done).length)
  ∧ (Runs (eatPsaScanLoop (scan.idx + (eatPsaEntriesBytes done).length) label n) scan true scan' →
    ∃ d ∈ done, d.label = label)
  := by
  induction done generalizing n scan with
  | nil =>
      rw [eatPsaEntriesBytes_nil, List.length_nil, Nat.add_zero, runs_eatPsaScanLoop_end, runs_eatPsaScanLoop_end,
        DecCtx.advance_zero]
      simp
  | cons d done ih =>
      obtain ⟨⟨hd, hitem⟩, hdone⟩ := List.forall_mem_cons.mp hdone
      obtain _ | n := n
      · cases hn
      rw [eatPsaEntriesBytes_cons, List.append_assoc] at hrest
      have hlt : scan.idx < scan.idx + (eatPsaEntriesBytes (d :: done)).length := by
        rw [eatPsaEntriesBytes_cons, EatPsaEntry.bytes, List.length_append, List.length_append]
        have := d.token.one_le_length_bytes
        omega
      have hlen : scan.idx + (eatPsaEntriesBytes (d :: done)).length
          = (scan.advance d.bytes.length).idx + (eatPsaEntriesBytes done).length := by
        rw [eatPsaEntriesBytes_cons, List.length_append, DecCtx.idx_advance, Nat.add_assoc]
      have hrest' : (scan.advance d.bytes.length).rest = eatPsaEntriesBytes done ++ tail := by
        rw [DecCtx.rest_advance, hrest, List.drop_left]
      obtain ⟨hfalse, htrue⟩ := ih hdone (Nat.le_of_succ_le_succ hn) (scan.advance d.bytes.length) hrest'
      rw [← hlen, DecCtx.advance_advance, ← List.length_append, ← eatPsaEntriesBytes_cons] at hfalse
      rw [← hlen] at htrue
      rw [runs_eatPsaScanLoop_entry hd hitem hrest hlt, runs_eatPsaScanLoop_entry hd hitem hrest hlt, hfalse,
        List.forall_mem_cons]
      constructor
      · constructor
        · rintro (⟨-, ⟨⟩, -⟩ | ⟨hne, hskip, hall, rfl⟩)
          exact ⟨⟨⟨hskip, hne⟩, hall⟩, rfl⟩
        · rintro ⟨⟨⟨hskip, hne⟩, hall⟩, rfl⟩
          exact .inr ⟨hne, hskip, hall, rfl⟩
      · rintro (⟨heq, -, -⟩ | ⟨-, -, hrun⟩)
        · exact ⟨d, List.mem_cons_self, heq⟩
        · obtain ⟨d', hmem, heq⟩ := htrue hrun
          exact ⟨d', List.mem_cons_of_mem _ hmem, heq⟩

/-- The labels of the entries before a label are different from it, and the scan can read them
again. -/
def EatPsaScans (done : List EatPsaEntry) (label : EatPsaLabel) : Prop :=
  ∀ d ∈ done, SkippedValue eatPsaDecodeFlags d.value ∧ d.label ≠ label

/-- The head of a map with a number of entries. -/
structure EatPsaMapHead (head : Token) (count : Nat) : Prop where
  accepted : Accepted eatPsaDecodeFlags head
  major : head.major = .map
  val : head.val = count

omit [EatPsaSettings] in
theorem EatPsaMapHead.children {head : Token} {count : Nat} (h : EatPsaMapHead head count) :
  head.children = 2 * count
  := by
  rw [Token.children, h.major, h.val]

/-- The head of a map may have any width. -/
theorem eatPsaMapHead_of_wellFormed {head : Token} {count : Nat} (hwf : head.WellFormed) (hm : head.major = .map)
    (hv : head.val = count) :
  EatPsaMapHead head count
  := by
  refine ⟨⟨hwf, ?_, ?_, ?_⟩, hm, hv⟩ <;> rw [hm]
  · rintro ⟨⟩
  · rw [allowsNonpreferred, eatPsaVerify_eq]
    rintro ⟨⟩
  · rintro ⟨⟩

/-- The search for a label among the entries before it finds nothing exactly if it can read them
again and none has the label, and finds it only if one of them has it. -/
theorem runs_eatPsaMapHasPriorLabel {head : Token} {count : Nat} (hhead : EatPsaMapHead head count)
    {done : List EatPsaEntry} (hdone : ∀ d ∈ done, d.Labelled ∧ EatPsaItem d.value)
    (hn : done.length ≤ count) {tail map : Bytes} (hmap : map = eatPsaMapBytes head done ++ tail)
    (hlen : map.length ≤ sizeMax) (hroom : 2 * count ≤ (eatPsaEntriesBytes done ++ tail).length)
    {label : EatPsaLabel} (ctx ctx' : DecCtx) :
  (Runs (eatPsaMapHasPriorLabel map (eatPsaMapBytes head done).length label) ctx false ctx'
    ↔ EatPsaScans done label ∧ ctx' = ctx)
  ∧ (Runs (eatPsaMapHasPriorLabel map (eatPsaMapBytes head done).length label) ctx true ctx' →
    ∃ d ∈ done, d.label = label)
  := by
  have hrest : (DecCtx.init (.ofBytes map)).rest = head.bytes ++ (eatPsaEntriesBytes done ++ tail) := by
    rw [DecCtx.rest_init, Buffer.bytes_ofBytes hlen, hmap, eatPsaMapBytes, List.append_assoc]
  have hc := DecCtx.consumes_of_rest hrest
  have hafter := hc.rest_eq
  rw [hrest, List.append_cancel_left_eq] at hafter
  have hloop := @runs_eatPsaScanLoop _ _ label done hdone _ hn _ _ hafter.symm
  have hbefore : (DecCtx.init (.ofBytes map)).idx + head.bytes.length + (eatPsaEntriesBytes done).length
      = (eatPsaMapBytes head done).length := by
    rw [eatPsaMapBytes, List.length_append]
    exact congrArg (· + _) (Nat.zero_add _)
  rw [DecCtx.idx_advance, hbefore] at hloop
  have hfits : ¬ (eatPsaMapBytes head done).length > map.length := by
    rw [hmap, List.length_append]
    omega
  simp only [eatPsaMapHasPriorLabel, eatPsaScanMap, runs_bind, runs_failIf, runs_onLocal, runs_pure, Prod.exists,
    runs_decodeMapStartEx, decodeFlagsValid_eatPsa, true_and]
  refine ⟨⟨?_, ?_⟩, ?_⟩
  · rintro ⟨_, _, ⟨-, rfl⟩, _, _, _, ⟨⟨n, ctx₁, ⟨t, ht, hct, hm, rfl, -⟩, hrun⟩, rfl⟩, rfl, rfl⟩
    obtain ⟨rfl, rfl⟩ := ht.consumes_unique hhead.accepted hct hc
    rw [hhead.val] at hrun
    exact ⟨((hloop _).1.mp hrun).1, rfl⟩
  · rintro ⟨hscan, rfl⟩
    refine ⟨(), _, ⟨hfits, rfl⟩, false, _, _, ⟨⟨count, _, ⟨head, hhead.accepted, hc, hhead.major, hhead.val, ?_⟩,
      (hloop _).1.mpr ⟨hscan, rfl⟩⟩, rfl⟩, rfl, rfl⟩
    rw [hhead.children, ← hafter]
    exact hroom
  · rintro ⟨_, _, ⟨-, rfl⟩, _, _, _, ⟨⟨n, ctx₁, ⟨t, ht, hct, hm, rfl, -⟩, hrun⟩, rfl⟩, rfl, rfl⟩
    obtain ⟨rfl, rfl⟩ := ht.consumes_unique hhead.accepted hct hc
    rw [hhead.val] at hrun
    exact (hloop _).2 hrun

/-! ### Reading the entries -/

/-- A value decoder reads what the relation `V` says, whatever follows it. -/
def EatPsaReadsValue {σ : Type} (value : EatPsaLabel → σ → Dec σ)
    (V : EatPsaLabel → Bytes → σ → σ → Prop) : Prop :=
  ∀ label s, Reads (value label s) (fun bs s' => V label bs s s')

/-- Entry by entry, the label is an accepted token and the value takes the variables from one
state to the next. -/
def EatPsaEntrySteps {σ : Type} (V : EatPsaLabel → Bytes → σ → σ → Prop) (e : EatPsaEntry) (s s' : σ) :
    Prop :=
  e.Labelled ∧ V e.label e.value s s'

/-- Every label is new when it is reached, and the entries before it can be read again. -/
def EatPsaFresh : List EatPsaEntry → List EatPsaEntry → Prop
  | _, [] => True
  | done, e :: es => EatPsaScans done e.label ∧ EatPsaFresh (done ++ [e]) es

section Loop

variable {σ : Type} {value : EatPsaLabel → σ → Dec σ} {V : EatPsaLabel → Bytes → σ → σ → Prop}

/-- One turn of the loop reads an entry with a new label. -/
theorem runs_eatPsaDecodeEntry (hvalue : EatPsaReadsValue value V) {head : Token} {count : Nat}
    (hhead : EatPsaMapHead head count) {mapStart : Nat} {done : List EatPsaEntry}
    (hdone : ∀ d ∈ done, d.Labelled ∧ EatPsaItem d.value) (hn : done.length ≤ count) {ctx : DecCtx}
    (hidx : ctx.idx = mapStart + (eatPsaMapBytes head done).length)
    (hmap : ctx.cbuf.bytes.drop mapStart = eatPsaMapBytes head done ++ ctx.rest)
    (hroom : 2 * count ≤ (eatPsaEntriesBytes done ++ ctx.rest).length) (s s' : σ) (ctx' : DecCtx) :
  Runs (eatPsaDecodeEntry mapStart value s) ctx s' ctx'
    ↔ ∃ e, EatPsaEntrySteps V e s s' ∧ EatPsaScans done e.label ∧ ctx.Consumes e.bytes ctx'
  := by
  have hfits : (ctx.cbuf.bytes.drop mapStart).length ≤ sizeMax := by
    rw [List.length_drop]
    exact (Nat.sub_le _ _).trans ctx.cbuf.length_le
  have hprior := @runs_eatPsaMapHasPriorLabel _ _ _ _ hhead _ hdone hn _ _ hmap hfits hroom
  have hbefore : ctx.idx - mapStart = (eatPsaMapBytes head done).length := by omega
  simp only [eatPsaDecodeEntry, runs_bind, runs_get, runs_failIf, runs_eatPsaDecodeLabel]
  constructor
  · rintro ⟨_, _, ⟨rfl, rfl⟩, label, ctx₁, ⟨t, ht, hc, hl⟩, duplicate, ctx₂, hdup, _, _, ⟨hnew, rfl⟩, hval⟩
    rw [Bool.not_eq_true] at hnew
    rw [hnew, hbefore] at hdup
    obtain ⟨hscan, rfl⟩ := (hprior _ _).1.mp hdup
    obtain ⟨bs, hv, hc'⟩ := (hvalue label s _ _ _).mp hval
    exact ⟨⟨t, label, bs⟩, ⟨⟨ht, hl⟩, hv⟩, hscan, hc.trans hc'⟩
  · rintro ⟨e, ⟨⟨ht, hl⟩, hv⟩, hscan, hc⟩
    obtain ⟨ctx₁, hct, hcv⟩ := hc.split
    refine ⟨ctx, ctx, ⟨rfl, rfl⟩, e.label, ctx₁, ⟨e.token, ht, hct, hl⟩, false, ctx₁, ?_, (), ctx₁,
      ⟨Bool.false_ne_true, rfl⟩, ?_⟩
    · rw [hbefore]
      exact (hprior _ _).1.mpr ⟨hscan, rfl⟩
    · exact (hvalue _ _ _ _ _).mpr ⟨e.value, hv, hcv⟩

/-- The loop reads entries whose labels are new among all entries up to them. -/
theorem runs_eatPsaDecodeEntries (hvalue : EatPsaReadsValue value V)
    (hitem : ∀ label bs s s', V label bs s s' → EatPsaItem bs) {head : Token} {count : Nat}
    (hhead : EatPsaMapHead head count) {mapStart : Nat} (n : Nat) (done : List EatPsaEntry)
    (hdone : ∀ d ∈ done, d.Labelled ∧ EatPsaItem d.value) (hn : done.length + n ≤ count) (ctx : DecCtx)
    (hidx : ctx.idx = mapStart + (eatPsaMapBytes head done).length)
    (hmap : ctx.cbuf.bytes.drop mapStart = eatPsaMapBytes head done ++ ctx.rest)
    (hroom : 2 * count ≤ (eatPsaEntriesBytes done ++ ctx.rest).length) (s s' : σ) (ctx' : DecCtx) :
  Runs (repeatM n (eatPsaDecodeEntry mapStart value) s) ctx s' ctx'
    ↔ ∃ es : List EatPsaEntry, es.length = n ∧ Steps (EatPsaEntrySteps V) es s s' ∧ EatPsaFresh done es
      ∧ ctx.Consumes (eatPsaEntriesBytes es) ctx'
  := by
  induction n generalizing done ctx s with
  | zero =>
      rw [runs_repeatM_zero]
      constructor
      · rintro ⟨rfl, rfl⟩
        exact ⟨[], rfl, .nil _, trivial, ctx.consumes_nil⟩
      · rintro ⟨es, hlen, hsteps, -, hc⟩
        obtain rfl := List.eq_nil_of_length_eq_zero hlen
        exact ⟨Steps.nil_iff.mp hsteps, ctx.consumes_nil.unique hc⟩
  | succ n ih =>
      have hturn := runs_eatPsaDecodeEntry hvalue hhead hdone (by omega) hidx hmap hroom s
      -- after an entry the loop goes on with that entry among those before
      have hnext {e : EatPsaEntry} {s₁ : σ} {ctx₁ : DecCtx} (he : EatPsaEntrySteps V e s s₁)
          (hc : ctx.Consumes e.bytes ctx₁) := by
        have hmapBytes : eatPsaMapBytes head (done ++ [e]) = eatPsaMapBytes head done ++ e.bytes := by
          simp [eatPsaMapBytes, eatPsaEntriesBytes_append, eatPsaEntriesBytes_cons]
        have hentries : eatPsaEntriesBytes (done ++ [e]) = eatPsaEntriesBytes done ++ e.bytes := by
          simp [eatPsaEntriesBytes_append, eatPsaEntriesBytes_cons]
        refine ih (done ++ [e]) ?_ ?_ ctx₁ ?_ ?_ ?_ s₁
        · intro d hd
          rcases List.mem_append.mp hd with hd | hd
          · apply hdone d hd
          · obtain rfl := List.mem_singleton.mp hd
            exact ⟨he.1, hitem _ _ _ _ he.2⟩
        · rw [List.length_append, List.length_singleton]
          omega
        · rw [hc.idx_eq, hidx, hmapBytes, List.length_append, Nat.add_assoc]
        · rw [hc.cbuf_eq, hmap, hmapBytes, hc.rest_eq, List.append_assoc]
        · rw [hentries, List.append_assoc, ← hc.rest_eq]
          exact hroom
      simp only [runs_repeatM_succ, hturn]
      constructor
      · rintro ⟨s₁, ctx₁, ⟨e, he, hscan, hc⟩, hrun⟩
        obtain ⟨es, rfl, hsteps, hfresh, hc'⟩ := (hnext he hc).mp hrun
        exact ⟨e :: es, rfl, .cons he hsteps, ⟨hscan, hfresh⟩, hc.trans hc'⟩
      · rintro ⟨es, hlen, hsteps, hfresh, hc⟩
        obtain _ | ⟨e, es⟩ := es
        · cases hlen
        obtain ⟨s₁, he, hsteps⟩ := Steps.cons_iff.mp hsteps
        rw [eatPsaEntriesBytes_cons] at hc
        obtain ⟨ctx₁, hc₁, hc₂⟩ := hc.split
        exact ⟨s₁, ctx₁, ⟨e, he, hfresh.1, hc₁⟩,
          (hnext he hc₁).mpr ⟨es, Nat.succ.inj hlen, hsteps, hfresh.2, hc₂⟩⟩

/-- What the loops read: the head of a map, within the limit, and its entries. -/
def EatPsaMapValue (limit : Nat) (V : EatPsaLabel → Bytes → σ → σ → Prop) (s : σ) (bs : Bytes) (s' : σ) :
    Prop :=
  ∃ head es, bs = eatPsaMapBytes head es ∧ EatPsaMapHead head es.length ∧ es.length ≤ limit
    ∧ Steps (EatPsaEntrySteps V) es s s' ∧ EatPsaFresh [] es

omit [Settings] [EatPsaSettings] in
/-- An entry has a byte for its label at least, and one for its value. -/
theorem two_mul_length_le {es : List EatPsaEntry} (h : ∀ e ∈ es, e.value ≠ []) :
  2 * es.length ≤ (eatPsaEntriesBytes es).length
  := by
  induction es with
  | nil => exact Nat.le_refl 0
  | cons e es ih =>
      obtain ⟨he, hes⟩ := List.forall_mem_cons.mp h
      have hvalue := List.length_pos_iff.mpr he
      have htoken := e.token.one_le_length_bytes
      have := ih hes
      rw [eatPsaEntriesBytes_cons, EatPsaEntry.bytes, List.length_append, List.length_append, List.length_cons]
      omega

/-- After the head, any number of turns of the loop reads that many entries. -/
theorem runs_eatPsaDecodePrefix (hvalue : EatPsaReadsValue value V)
    (hitem : ∀ label bs s s', V label bs s s' → EatPsaItem bs) {head : Token} {count : Nat}
    (hhead : EatPsaMapHead head count) {ctx start : DecCtx} (hc : ctx.Consumes head.bytes start)
    (hroom : 2 * count ≤ start.rest.length) {i : Nat} (hi : i ≤ count) (s s' : σ) (ctx' : DecCtx) :
  Runs (repeatM i (eatPsaDecodeEntry ctx.idx value) s) start s' ctx'
    ↔ ∃ es : List EatPsaEntry, es.length = i ∧ Steps (EatPsaEntrySteps V) es s s' ∧ EatPsaFresh [] es
      ∧ start.Consumes (eatPsaEntriesBytes es) ctx'
  := by
  have hmap : eatPsaMapBytes head [] = head.bytes := by
    rw [eatPsaMapBytes, eatPsaEntriesBytes_nil, List.append_nil]
  apply runs_eatPsaDecodeEntries hvalue hitem hhead i [] (List.forall_mem_nil _)
  · rw [List.length_nil, Nat.zero_add]
    exact hi
  · rw [hc.idx_eq, hmap]
  · rw [hc.cbuf_eq, hmap]
    exact hc.rest_eq
  · exact hroom

/-- The decoder of a map reads exactly a head and entries with new labels. -/
theorem reads_eatPsaDecodeMap (hvalue : EatPsaReadsValue value V)
    (hitem : ∀ label bs s s', V label bs s s' → EatPsaItem bs) (limit : Nat) (s : σ) :
  Reads (eatPsaDecodeMap limit value s) (EatPsaMapValue limit V s)
  := by
  intro ctx s' ctx'
  have hloop {head : Token} {count : Nat} (hhead : EatPsaMapHead head count) {ctx₁ : DecCtx}
      (hc : ctx.Consumes head.bytes ctx₁) (hroom : 2 * count ≤ ctx₁.rest.length) :=
    runs_eatPsaDecodePrefix hvalue hitem hhead hc hroom (Nat.le_refl count) s s' ctx'
  simp only [eatPsaDecodeMap, runs_bind, runs_get, runs_failIf, runs_decodeMapStartEx, decodeFlagsValid_eatPsa,
    true_and]
  constructor
  · rintro ⟨_, _, ⟨rfl, rfl⟩, n, ctx₁, ⟨head, ht, hc, hm, hv, hroom⟩, _, _, ⟨hlimit, rfl⟩, hrun⟩
    have hhead : EatPsaMapHead head n := ⟨ht, hm, hv⟩
    rw [hhead.children] at hroom
    obtain ⟨es, rfl, hsteps, hfresh, hc'⟩ := (hloop hhead hc hroom).mp hrun
    exact ⟨_, ⟨head, es, rfl, hhead, Nat.le_of_not_gt hlimit, hsteps, hfresh⟩, hc.trans hc'⟩
  · rintro ⟨_, ⟨head, es, rfl, hhead, hlimit, hsteps, hfresh⟩, hc⟩
    obtain ⟨ctx₁, hc₁, hc₂⟩ := hc.split
    have hroom : 2 * es.length ≤ ctx₁.rest.length := by
      apply (two_mul_length_le _).trans
      · rw [hc₂.length_rest_eq]
        apply Nat.le_add_right
      · intro e he
        obtain ⟨_, _, -, hv⟩ := hsteps.forall_mem e he
        obtain ⟨_, hi⟩ := hitem _ _ _ _ hv
        apply hi.ne_nil
    refine ⟨ctx, ctx, ⟨rfl, rfl⟩, es.length, ctx₁, ⟨head, hhead.accepted, hc₁, hhead.major, hhead.val, ?_⟩, (), ctx₁,
      ⟨Nat.not_lt.mpr hlimit, rfl⟩, (hloop hhead hc₁ hroom).mpr ⟨es, rfl, hsteps, hfresh, hc₂⟩⟩
    rw [hhead.children]
    exact hroom

/-- The decoder of a map has read the label after a number of entries. -/
structure EatPsaReaches (limit : Nat) (value : EatPsaLabel → σ → Dec σ) (s : σ) (ctx : DecCtx) (i : Nat)
    (label : EatPsaLabel) (before after : DecCtx) : Prop where
  entries : ∃ count start s', Runs (decodeMapStartEx eatPsaDecodeFlags) ctx count start ∧ ¬ count > limit ∧ i < count
    ∧ Runs (repeatM i (eatPsaDecodeEntry ctx.idx value) s) start s' before
  label : Runs eatPsaDecodeLabel before label after

end Loop

omit [EatPsaSettings] in
/-- The labels are new beside those before exactly if all of them are different, and the entries
before the last one can be read again. -/
theorem eatPsaFresh_iff {done es : List EatPsaEntry} (hdone : (done.map EatPsaEntry.label).Nodup) :
  EatPsaFresh done es
    ↔ ((done ++ es).map EatPsaEntry.label).Nodup
      ∧ (es ≠ [] → ∀ d ∈ done, SkippedValue eatPsaDecodeFlags d.value)
      ∧ ∀ e ∈ es.dropLast, SkippedValue eatPsaDecodeFlags e.value
  := by
  induction es generalizing done with
  | nil => simpa [EatPsaFresh] using hdone
  | cons e es ih =>
      have hassoc : (done ++ [e]) ++ es = done ++ e :: es := by
        rw [List.append_assoc, List.singleton_append]
      rw [EatPsaFresh]
      constructor
      · rintro ⟨hscan, hfresh⟩
        have hnodup : ((done ++ [e]).map EatPsaEntry.label).Nodup := by
          rw [List.map_append, List.nodup_append]
          refine ⟨hdone, by simp, ?_⟩
          intro label hl label' hl'
          obtain ⟨d, hd, rfl⟩ := List.mem_map.mp hl
          rw [List.mem_singleton.mp hl']
          exact (hscan d hd).2
        obtain ⟨hall, hbefore, hlast⟩ := (ih hnodup).mp hfresh
        rw [hassoc] at hall
        refine ⟨hall, fun _ d hd => (hscan d hd).1, ?_⟩
        obtain _ | ⟨e', es⟩ := es
        · exact List.forall_mem_nil _
        rw [List.dropLast_cons_of_ne_nil (List.cons_ne_nil _ _), List.forall_mem_cons]
        exact ⟨hbefore (List.cons_ne_nil _ _) e (List.mem_append_right _ (List.mem_singleton_self e)), hlast⟩
      · rintro ⟨hall, hbefore, hlast⟩
        have hread := hbefore (List.cons_ne_nil _ _)
        have hsplit := hall
        rw [← hassoc, List.map_append, List.nodup_append] at hsplit
        have hnew := hsplit.1
        rw [List.map_append, List.nodup_append] at hnew
        refine ⟨fun d hd => ⟨hread d hd, hnew.2.2 _ (List.mem_map_of_mem hd) _ (List.mem_singleton_self _)⟩, ?_⟩
        rw [ih hsplit.1, hassoc]
        obtain _ | ⟨e', es⟩ := es
        · exact ⟨hall, fun h => absurd rfl h, List.forall_mem_nil _⟩
        rw [List.dropLast_cons_of_ne_nil (List.cons_ne_nil _ _), List.forall_mem_cons] at hlast
        refine ⟨hall, fun _ d hd => ?_, hlast.2⟩
        rcases List.mem_append.mp hd with hd | hd
        · apply hread d hd
        · rw [List.mem_singleton.mp hd]
          exact hlast.1

omit [EatPsaSettings] in
/-- All labels of a map are new exactly if they are different and the entries but the last can be
read again. -/
theorem eatPsaFresh_nil_iff {es : List EatPsaEntry} :
  EatPsaFresh [] es
    ↔ (es.map EatPsaEntry.label).Nodup ∧ ∀ e ∈ es.dropLast, SkippedValue eatPsaDecodeFlags e.value
  := by
  rw [@eatPsaFresh_iff _ [] _ List.nodup_nil]
  simp

end WolfCose
