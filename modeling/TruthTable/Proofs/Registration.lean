import TruthTable.Proofs.ErrorPlace
import TruthTable.Proofs.Names

/-!
# What reading registers

Names are registered as their tokens are read, and whether to read on is decided on tokens that
are only looked at. By the standard rules these never fall apart: an error points to the token
that is ahead of the reader when it arises, or to the end of the source
(`Outcome.PointsAhead`). Two rules read a token before they look at it, and would name that
token in an error; they are applied at their own tokens only, so these errors do not arise.

So the tokens read before an error are those that start before its place, since tokens stand
one after the other (`filter_start_lt`).

Main statement: `parse_registers`.
-/

namespace TruthTable

/-! ## Errors point ahead -/

namespace Outcome

variable {α β : Type} {limit : Nat}

/-- An error of the step points to what is ahead of the reader that the step leaves. -/
def PointsAhead : Outcome α limit → Prop
  | done _ _ _ => True
  | failed error rest => error.position = rest.lookahead

theorem PointsAhead.map {o : Outcome α limit} (h : o.PointsAhead) (f : α → β) :
    (o.map f).PointsAhead := by
  cases o <;> exact h

theorem PointsAhead.widen {o : Outcome α limit} (h : o.PointsAhead) {wider : Nat}
    (hle : limit ≤ wider) : (o.widen hle).PointsAhead := by
  cases o <;> exact h

theorem PointsAhead.andThen {mid : α → Reader → Prop} {o : Outcome α limit} (h : o.PointsAhead)
    (hmid : o.Ensures mid)
    {step : α → (s : Reader) → s.pending.length < limit → Outcome β s.pending.length}
    (hstep : ∀ value s shorter, mid value s → (step value s shorter).PointsAhead) :
    (o.andThen step).PointsAhead := by
  cases o with
  | done value s shorter => exact (hstep value s shorter hmid).widen (Nat.le_of_lt shorter)
  | failed error s => exact h

end Outcome

namespace Reader

variable {r s : Reader} {t : Token}

theorem lookahead_eq (r : Reader) : r.lookahead = startOf r.source r.peek? := by
  rw [lookahead]
  split <;> next hpeek => rw [hpeek]; rfl

@[simp] theorem unexpected_position (r : Reader) : r.unexpected.position = r.lookahead := by
  rw [unexpected, lookahead]
  split <;> rfl

theorem advance_pointsAhead (r : Reader) : r.advance.PointsAhead := by
  obtain ⟨source, pending, vs⟩ := r
  cases pending with
  | nil => exact unexpected_position _
  | cons t ts => exact trivial

theorem expectOr_pointsAhead (r : Reader) (kind : Kind) {error : Error}
    (herror : error.position = r.lookahead) : (r.expectOr kind error).PointsAhead := by
  unfold expectOr
  split
  · exact r.advance_pointsAhead
  · exact herror

end Reader

theorem HeadRule.read_pointsAhead {rule : HeadRule} {r : Reader} {t : Token}
    {operand : OperandReader r.pending.length}
    (h : ∀ power s shorter, (operand power s shorter).PointsAhead) (ht : r.peek? = some t)
    (hrule : Rules.standard.head? t.kind = some rule) : (rule.read r operand).PointsAhead := by
  have hexpect (kind : Kind) : (r.expect kind).PointsAhead :=
    r.expectOr_pointsAhead kind r.unexpected_position
  rcases Rules.head?_standard hrule with ⟨rfl, -⟩ | ⟨rfl, hkind⟩ | ⟨rfl, -⟩
  · exact (hexpect .identifier).map _
  -- The sign has been read when it is looked at, but it is the one the rule stands at.
  · refine r.advance_pointsAhead.andThen r.advance_ensures fun sign s shorter hsign => ?_
    obtain rfl := Option.some.inj (hsign.peek?_eq.symm.trans ht)
    rw [if_pos hkind]
    exact (h _ _ _).map _
  · refine (hexpect .openParen).andThen (r.expectOr_ensures _ _) fun _ s shorter _ => ?_
    have hinner : (operand .lowest s shorter).Ensures fun _ _ => True := by
      cases operand .lowest s shorter <;> exact trivial
    exact (h .lowest s shorter).andThen hinner fun _ u _ _ => (u.expectOr_pointsAhead _ rfl).map _

theorem TailRule.read_pointsAhead {rule : TailRule} {left : Formula} {power tighter : BindingPower}
    {r : Reader} {operand : OperandReader r.pending.length}
    (h : ∀ power s shorter, (operand power s shorter).PointsAhead)
    (hrule : Rules.standard.tailAt? power left r = some (tighter, rule)) :
    (rule.read left tighter r operand).PointsAhead := by
  obtain ⟨t, ht, htail, -⟩ := Rules.tailAt?_eq_some_iff.1 hrule
  rcases Rules.tail?_standard htail with ⟨rfl, hkind, -⟩ | ⟨rfl, -⟩
  · refine r.advance_pointsAhead.andThen r.advance_ensures fun sign s shorter hsign => ?_
    obtain rfl := Option.some.inj (hsign.peek?_eq.symm.trans ht)
    obtain ⟨c, hc⟩ := Kind.isConnective_iff.1 hkind
    rw [Connective.ofToken, Connective.ofKind?_eq_some_iff.2 hc]
    exact (h _ _ _).map _
  · have hexpect := r.expectOr_pointsAhead .assignment r.unexpected_position
    exact hexpect.andThen (r.expectOr_ensures _ _) fun _ s shorter _ => (h _ _ _).map _

namespace Rules

theorem readTails_pointsAhead (power : BindingPower) (left : Formula) (r : Reader)
    {operand : OperandReader r.pending.length}
    (h : ∀ power s shorter, (operand power s shorter).PointsAhead) :
    (standard.readTails power left r operand).PointsAhead := by
  fun_induction readTails standard power left r operand with
  | case1 => exact trivial
  | case2 left r operand tighter rule hrule error s hread =>
    have hpoints := TailRule.read_pointsAhead h hrule
    rwa [hread] at hpoints
  | case3 left r operand tighter rule _ longer s shorter hread ih =>
    exact (ih fun power u _ => h power u _).widen _

theorem readStep_pointsAhead (power : BindingPower) (r : Reader)
    {operand : OperandReader r.pending.length}
    (h : ∀ power s shorter, (operand power s shorter).PointsAhead) :
    (standard.readStep power r operand).PointsAhead := by
  unfold readStep
  split
  · exact r.unexpected_position
  · next rule hrule =>
    obtain ⟨t, ht, hhead⟩ := Option.bind_eq_some_iff.1 hrule
    have hpoints := HeadRule.read_pointsAhead h ht hhead
    split
    · next error s hread => rwa [hread] at hpoints
    · next left s shorter hread =>
      exact (readTails_pointsAhead power left s fun power u _ => h power u _).widen _

/-- An error of reading by the standard rules points to the token ahead. -/
theorem read_pointsAhead (power : BindingPower) (r : Reader) :
    (standard.read power r).PointsAhead := by
  fun_induction read standard power r with
  | case1 power r ih => exact readStep_pointsAhead power r ih

end Rules

section

variable {vs : Variables} {source : String}

/-- A source that is not read has been read up to the place of its error. -/
theorem exists_readTo_of_error {error : Error} (h : (parse vs source).1 = .error error) :
    ∃ ts rest, (Reader.start vs source).ReadTo ts rest ∧ error.position = rest.lookahead ∧
      (parse vs source).2 = rest.seen := by
  obtain ⟨ts, hts⟩ := Rules.standard.read_follows .lowest (Reader.start vs source)
  have hpoints := Rules.read_pointsAhead .lowest (Reader.start vs source)
  rw [parse] at h ⊢
  split at h
  · next error' rest hread =>
    rw [hread] at hts hpoints
    obtain rfl := Except.error.inj h
    exact ⟨ts, rest, hts, hpoints, rfl⟩
  · next f rest _ hread =>
    rw [hread] at hts
    split at h
    · cases h
    -- A formula has been read, and a token is left over.
    · next hpending =>
      obtain rfl := Except.error.inj h
      exact ⟨ts, rest, hts, rest.unexpected_position, rfl⟩

/-- The variables that reading begins with are emptied first. -/
theorem parse_congr (vs vs' : Variables) (source : String) :
    parse vs source = parse vs' source := by
  rw [parse, parse]
  cases hread : Rules.standard.read .lowest (Reader.start vs source) with
  | failed error rest =>
    have : Rules.standard.read .lowest (Reader.start vs' source) = .failed error rest := hread
    rw [this]
  | done f rest shorter =>
    have : Rules.standard.read .lowest (Reader.start vs' source) = .done f rest shorter := hread
    rw [this]

section

variable {ts rest : List Token} (hsize : source.utf8ByteSize < UInt32.size)
  (h : tokens source = ts ++ rest)

include hsize h

/-- A token ends at the latest where the next one starts, or the source ends. -/
theorem start_lt_startOf {t : Token} (ht : t ∈ ts) : t.span.start < startOf source rest.head? := by
  obtain ⟨hwithin, hpairwise⟩ := ordered_tokens hsize
  rw [h] at hwithin hpairwise
  obtain ⟨-, hlt, hstop⟩ := hwithin t (List.mem_append_left _ ht)
  rw [UInt32.lt_iff_toNat_lt]
  cases rest with
  | nil =>
    rw [List.head?_nil, toNat_startOf_none hsize]
    omega
  | cons u us =>
    have hacross := (List.pairwise_append.1 hpairwise).2.2 t ht u List.mem_cons_self
    have hle := UInt32.le_iff_toNat_le.1 hacross
    show t.span.start.toNat < u.span.start.toNat
    omega

theorem startOf_le_start {u : Token} (hu : u ∈ rest) : startOf source rest.head? ≤ u.span.start := by
  obtain ⟨hwithin, hpairwise⟩ := ordered_tokens hsize
  rw [h] at hwithin hpairwise
  obtain ⟨t, us, rfl⟩ := List.exists_cons_of_ne_nil (List.ne_nil_of_mem hu)
  have hlt := (hwithin t (by simp)).start_lt_stop
  rw [UInt32.le_iff_toNat_le]
  show t.span.start.toNat ≤ u.span.start.toNat
  rcases List.mem_cons.1 hu with rfl | hu
  · exact Nat.le_refl _
  · have hfollow := (List.pairwise_append.1 hpairwise).2.1
    have hle := UInt32.le_iff_toNat_le.1 ((List.pairwise_cons.1 hfollow).1 u hu)
    omega

/-- Of the tokens of a source, those before a place are those that start before it. -/
theorem filter_start_lt :
    (tokens source).filter (fun t => t.span.start < startOf source rest.head?) = ts := by
  have hbefore : ts.filter (fun t => t.span.start < startOf source rest.head?) = ts :=
    List.filter_eq_self.2 fun t ht => decide_eq_true (start_lt_startOf hsize h ht)
  have hafter : rest.filter (fun t => t.span.start < startOf source rest.head?) = [] := by
    refine List.filter_eq_nil_iff.2 fun u hu => ?_
    rw [decide_eq_true_iff, UInt32.not_lt]
    exact startOf_le_start hsize h hu
  rw [h, List.filter_append, hbefore, hafter, List.append_nil]

end

end

/-! ## Registration -/

/-- Whatever the variables held before, reading a source below the limit of offsets leaves in
them the names of its formula, in order and each once, as taking its tokens alone does; and if
it fails, the names of the tokens that start before the place of the error. What they held
before has no part in it. -/
theorem parse_registers {source : String} (hsize : source.utf8ByteSize < UInt32.size)
    (vs : Variables) :
    (∀ f, (parse vs source).1 = .ok f →
      (parse vs source).2.names = f.names.eraseDups ∧ (parse vs source).2.names ≠ [] ∧
        ∀ other, (parse vs source).2 = (tokenize other source).2) ∧
    (∀ error, (parse vs source).1 = .error error →
      (parse vs source).2.names = firstNames
        (((tokens source).filter fun t => t.span.start < error.position).map Token.lexeme)) ∧
    ∀ other, parse other source = parse vs source := by
  refine ⟨fun f h => ?_, fun error h => ?_, fun other => parse_congr other vs source⟩
  · have hseen : (parse vs source).2 = ⟨namesIn source⟩ := seen_eq_namesIn (Prod.ext h rfl)
    have hnames : namesIn source = f.names.eraseDups := by
      rw [namesIn_eq h, firstNames, f.names_eq]
    rw [hseen]
    exact ⟨hnames, namesIn_ne_nil h, fun other => (Variables.empty_noteAll (tokens source)).symm⟩
  · obtain ⟨ts, rest, hts, hposition, hseen⟩ := exists_readTo_of_error h
    have htokens : tokens source = ts ++ rest.pending := hts.pending_eq
    have hsource : rest.source = source := hts.source_eq
    have hregistered : (parse vs source).2 = Variables.empty.noteAll ts := hseen.trans hts.seen_eq
    rw [hregistered, Variables.empty_noteAll, hposition, rest.lookahead_eq, hsource, Reader.peek?,
      filter_start_lt hsize htokens]

/-- The name at which a group turns out not to be closed is not registered, and a name that was
there before is forgotten. -/
theorem parse_registers_before_error : (parse ⟨["s"]⟩ "(p ∧ q r").2.names = ["p", "q"] := by
  have hread : (parse ⟨["s"]⟩ "(p ∧ q r").1 = .error ⟨.unclosedGroup, 9⟩ :=
    parse_eq_error (by decide +kernel)
  rw [(parse_registers (by decide) ⟨["s"]⟩).2.1 _ hread]
  decide +kernel

end TruthTable
