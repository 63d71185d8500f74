import TigerCheck.Proofs.Scope.Exp
import TigerCheck.Proofs.Scope.Headers

/-!
# The sites of functions

All functions of a run are bound first, so each of them is in scope in all their bodies, and then the bodies
are checked one after another. Each body appends to the frame of its own function only, and that frame gets
its layout when the body is done.

* `Ready`: the functions of a run whose bodies are still to be checked.
* **`bound_of_run`**: binding the functions of a run.
* **`body_surveyed`**: the body of one function.
* **`surveyed_functionRun`**: a run of functions.
-/

namespace TigerCheck

open Check

variable {ctx : Context} {pl : Place} {n b : ℕ} {c c' : Checker} {head : FunctionHead} {seen : List String}
  {plans : List Plan} {ds live : List Dec}

/-! ## Plans and handles -/

/-- The functions of a run that are not dropped, with their handles and with bodies of any kind. -/
inductive Handled : List Plan → List Dec → List Dec → Prop where
  | nil : Handled [] [] []
  | dropped {plans : List Plan} {d : Dec} {ds live : List Dec} :
      Handled plans ds live → Handled (.dropped :: plans) (d :: ds) live
  | function {h : Header} {plans : List Plan} {head : FunctionHead} {body body' : Exp} {loc : Location}
      {id : Option FunctionId} {ds live : List Dec} : Handled plans ds live →
      Handled (.functionBody h :: plans) (.function head body loc id :: ds)
        (.function head body' loc (some h.id) :: live)

/-- The functions of a run are bound, and their bodies are not checked yet. Their frames are the later ones
from some frame on, in the order of the run. The names that occurred before are given. -/
inductive Ready (ctx : Context) (pl : Place) (c : Checker) :
    List String → ℕ → List Plan → List Dec → Prop where
  | nil {seen : List String} {b : ℕ} : Ready ctx pl c seen b [] []
  | dropped {seen : List String} {b : ℕ} {plans : List Plan} {d : Dec} {ds : List Dec} :
      d.kind = .function → d.name.name ∈ seen → Ready ctx pl c seen b plans ds →
      Ready ctx pl c seen b (.dropped :: plans) (d :: ds)
  | function {seen : List String} {b : ℕ} {h : Header} {plans : List Plan} {head : FunctionHead}
      {body : Exp} {loc : Location} {id : Option FunctionId} {ds : List Dec} {link : VarId} :
      head.name.name ∉ seen → b ≤ h.frame.index → h.Fits ctx head c →
      HeadSite c pl head h.id h.frame link h.params → c.frames.Opened pl h.frame link h.params →
      Ready ctx pl c (head.name.name :: seen) (h.frame.index + 1) plans ds →
      Ready ctx pl c seen b (.functionBody h :: plans) (.function head body loc id :: ds)

/-- Functions stay ready as long as their frames are left alone. -/
theorem Ready.extends (h : Ready ctx pl c seen b plans ds) (hc : c.AtRest)
    (hpl : pl.types = c.typeNames.lookup) (hg : c.Extends c') (hn : c'.typeNames = c.typeNames)
    (hframes : ∀ f : FrameId, b ≤ f.index → f.index < c.frames.frames.size →
      c'.frames.frames[f.index]? = c.frames.frames[f.index]?) : Ready ctx pl c' seen b plans ds := by
  induction h with
  | nil => exact .nil
  | dropped hk hd _ ih => exact .dropped hk hd (ih hframes)
  | @function _ b hd _ _ _ _ _ _ _ hnot hle hfits hsite hopen _ ih =>
    refine .function hnot hle (hfits.extends hc hg hn) (hsite.extends (Place.settled hc hpl) hg) ?_
      (ih fun f hf => ?_)
    · obtain ⟨fr, hfr, hframe⟩ := hopen
      exact ⟨fr, by rw [hframes _ hle (Array.getElem?_eq_some_iff.mp hfr).1, hfr], hframe⟩
    · exact hframes f (Nat.le_trans (Nat.le_succ_of_le hle) hf)

theorem Ready.weaken {b' : ℕ} (h : Ready ctx pl c seen b plans ds) (hb : b' ≤ b) :
    Ready ctx pl c seen b' plans ds := by
  induction h with
  | nil => exact .nil
  | dropped hk hd _ ih => exact .dropped hk hd (ih hb)
  | function hnot hle hfits hsite hopen hrest =>
    exact .function hnot (Nat.le_trans hb hle) hfits hsite hopen hrest

theorem Ready.planned (h : Ready ctx pl c seen b plans ds) : Planned ctx c seen plans ds := by
  induction h with
  | nil => exact .nil
  | dropped hk hd _ ih => exact .dropped hk hd ih
  | function hnot _ hfits _ _ _ ih => exact .body hnot hfits ih

/-- The frame of a function that is to be checked. -/
def Plan.frame? : Plan → Option FrameId
  | .functionBody h => some h.frame
  | _ => none

theorem Ready.frame_mem (h : Ready ctx pl c seen b plans ds) :
    ∀ f ∈ plans.filterMap Plan.frame?, b ≤ f.index ∧ f.index < c.frames.frames.size := by
  induction h with
  | nil => exact fun f hf => by cases hf
  | dropped _ _ _ ih => exact ih
  | function _ hle _ _ hopen _ ih =>
    obtain ⟨fr, hfr, -⟩ := hopen
    intro f hf
    rcases List.mem_cons.mp hf with rfl | hf
    · exact ⟨hle, (Array.getElem?_eq_some_iff.mp hfr).1⟩
    · obtain ⟨hlt, hsize⟩ := ih f hf
      exact ⟨Nat.le_of_lt (Nat.lt_of_le_of_lt hle hlt), hsize⟩

/-! ## Binding the functions of a run -/

/-- A function that is declared at a place can be called from there. -/
theorem HeadSite.callable {id : FunctionId} {frame : FrameId} {link : VarId} {params : List VarId}
    (h : HeadSite c pl head id frame link params) (ho : c.frames.Opened pl frame link params) :
    c.frames.Callable pl.frame id := by
  refine ⟨_, h.prototype, fun level f l ps ho' => ?_⟩
  cases ho'
  obtain ⟨fr, hfr, hl, hp, -⟩ := ho
  obtain ⟨s, hs, -, hty⟩ := h.link
  refine ⟨fr, pl.frame, s, hfr, hl, hp, .self, hs, hty, fun sig hsig => ?_⟩
  obtain ⟨s', -, rfl⟩ := Option.map_eq_some_iff.mp hsig
  rfl

/-- What binding the functions of a run leaves behind. -/
structure FunctionsBound (ctx : Context) (pl : Place) (c : Checker) (seen : List String)
    (plans : List Plan) (ds : List Dec) (c' : Checker) : Prop where
  tallies : ∀ live, Handled plans ds live → Tallies c (fun _ => headSites pl live) 0 c'
  alters : c.frames.Alters [] c'.frames
  declared : c.Declared ctx c'
  typeNames_eq : c'.typeNames = c.typeNames
  ready : Ready ctx pl c' seen c.frames.frames.size plans ds
  calls : ctx.Calls c'
  placed : ∀ n live, Handled plans ds live → ctx.place c' = (ctx.place c).bindRun n live

/-- **The functions of a run are bound**, and can then be called from each other. -/
theorem bound_of_run (hk : ∀ d ∈ ds, d.kind = .function) : ∀ {seen : List String} {c c' : Checker}
    {plans : List Plan}, c.Sound → ctx.Sits c → ctx.Calls c → pl.types = c.typeNames.lookup →
    pl.frame = ctx.frame → pl.level = ctx.level → (bindHeaders ctx seen ds).run c = .ok (plans, c') →
    FunctionsBound ctx pl c seen plans ds c' := by
  induction ds with
  | nil =>
    intro seen c c' plans hc hs hcalls _ _ _ h
    cases h
    refine ⟨fun live hh => ?_, ⟨fun _ _ _ => rfl, Nat.le_refl _⟩, .refl hc hs, rfl, .nil, hcalls,
      fun n live hh => ?_⟩
    · cases hh
      exact .refl c
    · cases hh
      rfl
  | cons d ds ih =>
    intro seen c c' plans hc hs hcalls htypes hframe hlevel h
    obtain ⟨hd, hrest⟩ := List.forall_mem_cons.mp hk
    rcases exists_of_run_bindHeaders h with ⟨hseen, plans', rfl, h₂⟩ | ⟨hseen, plan, c₁, plans', rfl, hbinds, h₂⟩
    · have hw := Checker.walked_reported hc (.duplicateDefinition d.name.name) d.name.loc
      have hbound := ih hrest hw.sound (hs.walked hw) (hcalls.extends hw.grown rfl) htypes hframe hlevel h₂
      refine ⟨fun live hh => ?_, hbound.alters, (hw.declared hs).trans hbound.declared,
        hbound.typeNames_eq, .dropped hd hseen hbound.ready, hbound.calls, fun n live hh => ?_⟩
      · cases hh with
        | dropped hh => exact (hbound.tallies _ hh).after (tallies_again c d.name)
      · cases hh with
        | dropped hh => exact hbound.placed n _ hh
    · cases hbinds with
      | type => cases hd
      | var => cases hd
      | @function head body loc id hdr _ h₁ =>
        have hdecl := (yieldsOr_declareFunction hc hs head).of_run h₁
        have hhead := headed_of_run hc hs htypes hframe hlevel h₁
        obtain ⟨link, hsite, hopen⟩ := hhead.opened
        have htypes₁ : pl.types = c₁.typeNames.lookup := by rw [htypes, hdecl.typeNames_eq]
        have hcalls₁ : ctx.Calls c₁ := by
          intro name id hid
          rw [hdecl.functions_eq, Scopes.lookup_bind] at hid
          split at hid
          · cases hid
            exact hframe ▸ hsite.callable hopen
          · exact (hcalls name id hid).grows hdecl.declared.grown.frames
        have hbound := ih hrest hdecl.declared.sound hdecl.declared.sits hcalls₁ htypes₁ hframe hlevel h₂
        have hplace : ctx.place c₁ = (ctx.place c).bindFunction head.name.name (some hdr.id) := by
          have hlookup : c₁.functions.lookup =
              Function.update c.functions.lookup head.name.name (some hdr.id) := by
            funext x
            rw [hdecl.functions_eq, Scopes.lookup_bind, Function.update_apply]
          unfold Context.place Place.bindFunction
          rw [hlookup, hdecl.values_eq, hdecl.typeNames_eq]
        obtain ⟨fr, hfr, hfropen⟩ := hopen
        have hlt := (Array.getElem?_eq_some_iff.mp hfr).1
        have hothers := hbound.alters.others _ List.not_mem_nil hlt
        have hready : Ready ctx pl c' seen c.frames.frames.size (.functionBody hdr :: plans')
            (.function head body loc id :: ds) :=
          .function hseen hhead.new (hdecl.fits.extends hdecl.declared.sound.rest hbound.declared.grown
            hbound.typeNames_eq) (hsite.extends (Place.settled hdecl.declared.sound.rest htypes₁)
            hbound.declared.grown) ⟨fr, by rw [hothers, hfr], hfropen⟩ (hbound.ready.weaken hlt)
        refine ⟨fun live hh => ?_, hhead.alters.trans hbound.alters,
          hdecl.declared.trans hbound.declared, hbound.typeNames_eq.trans hdecl.typeNames_eq, hready,
          hbound.calls, fun n live hh => ?_⟩
        · cases hh with
          | @function _ _ _ _ body' _ _ _ live hh =>
            exact (hhead.tallies body').seq (hbound.tallies _ hh)
        · cases hh with
          | function hh =>
            rw [hbound.placed n _ hh, hplace]
            rfl

/-! ## The body of a function -/

/-- The parameters in scope are bound at the place. -/
theorem Place.bindParams_eq : ∀ (ps : List TypedName) (vs : List VarId) (pl : Place) (s : Scopes VarId),
    s.lookup = pl.values → pl.bindParams ps vs = { pl with values := (s.bindAll ps vs).lookup }
  | [], _, pl, s, h => by
    change pl = { pl with values := s.lookup }
    rw [h]
  | _ :: _, [], pl, s, h => by
    change pl = { pl with values := s.lookup }
    rw [h]
  | p :: ps, v :: vs, pl, s, h => by
    have hbind : (s.bind p.name.name v).lookup = (pl.bindValue p.name.name (some v)).values := by
      funext x
      rw [Scopes.lookup_bind, h]
      exact (Function.update_apply ..).symm
    rw [bindParams, bindParams_eq ps vs _ _ hbind, Scopes.bindAll]
    rfl

/-- The place of a body is where the walk stands when it checks the body. -/
theorem place_inBody {h : Header} {link : VarId} {t : FrameTable} {name : String}
    {signature : Option Signature} {level : ℕ} (hst : ctx.Stands pl n c) (hl : h.level = ctx.level + 1)
    (hp : t.functions[h.id.index]? = some ⟨name, signature, .declared level h.frame link h.params⟩) :
    pl.inBody t head (some h.id) = Context.place ⟨h.level, h.frame, 0⟩ (c.inBody head h) := by
  rw [Place.inBody, FrameTable.bodyFrame_of_declared hp, FrameTable.paramsOf_of_declared hp,
    Place.bindParams_eq _ _ _ c.values.enter (by rw [hst.values_eq]; rfl), Context.place, hl, hst.level_eq,
    hst.functions_eq, hst.types_eq]
  rfl

/-- **The body of a function is surveyed**, and completes the function's frame. -/
theorem body_surveyed {h : Header} {body : Exp} {loc : Location} {id : Option FunctionId}
    {r : Dec × Bool} {link : VarId} (hb : ExpSurveyed body) (hst : ctx.Stands pl n c)
    (hfits : h.Fits ctx head c) (hsite : HeadSite c pl head h.id h.frame link h.params)
    (hopen : c.frames.Opened pl h.frame link h.params) (hfresh : body.blank = body)
    (hrun : (checkDec ctx (.functionBody h) (.function head body loc id)).run c = .ok (r, c')) :
    ∃ body', r.1 = .function head body' loc (some h.id) ∧
      Tallies c (fun t => body'.live.sites t (pl.inBody t head (some h.id)) n) body'.live.typeDecs c' ∧
      c.frames.Alters [h.frame] c'.frames ∧
      (∀ d, c.Later c' d →
        ∀ s ∈ body'.live.sites d.frames (pl.inBody d.frames head (some h.id)) n, s.Holds d) ∧
      c'.frames.FrameSite pl body'.live h.frame link h.params ∧
      ctx.Stands pl (n + body'.live.typeDecs) c' := by
  have hw := walked_functionBody hst.sound hst.sits hfits hrun
  obtain ⟨body', c₁, frames, ok, h₁, hfin, hrule, rfl⟩ :=
    exists_of_run_bodyOf hst.sound hst.sits hfits hrun
  obtain ⟨fr, hfr, hlevel, hparent, hslots⟩ := hopen
  have hinner : Context.Stands ⟨h.level, h.frame, 0⟩ (Context.place ⟨h.level, h.frame, 0⟩ (c.inBody head h))
      n (c.inBody head h) :=
    ⟨hst.sound.withValues _, hfits.sits_inBody hst.sits, fun name id hid =>
      (hst.calls name id hid).inner hfr (by rw [hparent, hst.frame_eq]), rfl, hst.count⟩
  obtain ⟨⟨htallies, ⟨vs, hvs, happ⟩, hholds⟩, hend⟩ := (hb hinner hfresh h₁).1
  have hfr₁ := happ.frame fr hfr
  obtain ⟨hvars, hfunctions, hsize, hothers, tys, hlaid, hlayout⟩ := FrameTable.finalize_eq hfr₁ hfin
  obtain ⟨frames', hfin', -, -, hgrows, -⟩ := hend.sound.linked.finalize hfr₁
  obtain rfl := Except.ok.inj (hfin.symm.trans hfin')
  have hrule' := passive_body h.result body'.mark
  have hframes : c'.frames = frames := (hrule'.changes _ _ _ hrule).toSays.eq_frames.1
  have hopened : Tallies c (fun _ => []) 0 (c.inBody head h) :=
    .none ⟨fun _ _ h => h, fun _ _ h => h, .refl _, Nat.le_refl _, rfl⟩ rfl rfl rfl rfl rfl
  have hclosed : Tallies c₁ (fun _ => []) 0 { c₁ with values := c.values, frames } :=
    .none ⟨fun _ _ h => h, fun _ _ h => h, hgrows, Nat.le_refl _, rfl⟩ (congrArg _ hvars)
      (congrArg _ hfunctions) hsize rfl rfl
  have hrest := hclosed.andThen (hrule'.tallies hrule)
  have hall := (htallies.andThen hrest).after hopened
  have hplace : ∀ t, c'.frames.Grows t → pl.inBody t head (some h.id) =
      Context.place ⟨h.level, h.frame, 0⟩ (c.inBody head h) := fun t ht =>
    place_inBody hst hfits.level (ht.function _ _ (hw.grown.frames.function _ _ hsite.prototype))
  have hlt := (Array.getElem?_eq_some_iff.mp hfr).1
  have hlater : ∀ d, c.Later c' d → (c.inBody head h).Later c₁ d := by
    refine fun d hd => ⟨hrest.grown.trans hd.grown, hd.linked, fun g hle hlt' => ?_⟩
    have hne : g ≠ h.frame := fun heq => Nat.lt_irrefl _ (Nat.lt_of_lt_of_le hlt (heq ▸ hle))
    rw [hd.closed g hle (by rw [hframes, hsize]; exact hlt'), hframes, hothers g hne]
  refine ⟨body', rfl, ?_, ?_, fun d hd => ?_, ?_, ?_⟩
  · exact hall.congr_grows (fun t ht => by rw [hplace t ht]) rfl
  · refine ⟨fun g hg hlt' => ?_, ?_⟩
    · rw [hframes, hothers g (by simpa using hg), happ.alters.others g hg hlt']
      rfl
    · rw [hframes, hsize]
      exact happ.size_le
  · rw [hplace _ hd.grown.frames]
    exact hholds d (hlater d hd)
  · refine ⟨{ fr with slots := fr.slots ++ vs.toArray, layout := some tys }, by rw [hframes]; exact hlaid,
      hlevel, hparent, ?_, by rw [hframes]; exact hlayout⟩
    simp [hslots, hvs]
  · exact hst.walked hw (by rw [hall.types, hst.count])

/-! ## The bodies of a run -/

/-- A later state in which the frames from some frame on are as they are now. -/
structure Checker.LaterFrom (b : ℕ) (c d : Checker) : Prop where
  grown : c.Extends d
  linked : d.frames.Linked
  closed : ∀ g : FrameId, b ≤ g.index → g.index < c.frames.frames.size →
    d.frames.frames[g.index]? = c.frames.frames[g.index]?

theorem sitesDecs_function (t : FrameTable) (pl : Place) (n : ℕ) (head : FunctionHead) (body : Exp)
    (loc : Location) (id : Option FunctionId) (ds : List Dec) :
    sitesDecs t pl n (some .function) (.function head body loc id :: ds) =
      body.sites t (pl.inBody t head id) n ++
        sitesDecs t pl (n + body.typeDecs) (some .function) ds :=
  sitesDecs_of_kind (d := .function head body loc id) rfl

/-- What checking the bodies of a run leaves behind. -/
structure BodiesSurveyed (ctx : Context) (pl : Place) (n : ℕ) (c : Checker) (seen : List String)
    (plans : List Plan) (b : ℕ) (ds ds' live : List Dec) (c' : Checker) : Prop where
  handled : Handled plans ds live
  tallies : Tallies c (fun t => sitesDecs t pl n (some .function) live) (typeDecsDecs live) c'
  alters : c.frames.Alters (plans.filterMap Plan.frame?) c'.frames
  holds : ∀ d, c'.LaterFrom b d →
    ∀ s ∈ headSites pl live ++ sitesDecs d.frames pl n (some .function) live, s.Holds d
  stands : ctx.Stands pl (n + typeDecsDecs live) c'
  own : ownSlotsDecs live = []
  behind : pl.behind n (some .function) live = pl
  blank : blankDecs ds' = blankDecs ds
  dropped : droppedDecs ⟨some .function, seen⟩ ds' = droppedDecs ⟨some .function, seen⟩ ds

/-- **The bodies of a run are surveyed one after another.** -/
theorem bodies_surveyed : ∀ {seen : List String} {b n : ℕ} {plans : List Plan} {c c' : Checker}
    {r : List Dec × Bool}, Ready ctx pl c seen b plans ds → b ≤ c.frames.frames.size →
    ctx.Stands pl n c → (∀ d ∈ ds, d.Parts ExpSurveyed) → blankDecs ds = ds →
    (checkPlanned ctx plans ds).run c = .ok (r, c') →
    BodiesSurveyed ctx pl n c seen plans b ds r.1 (liveDecs ⟨some .function, seen⟩ r.1) c' := by
  induction ds with
  | nil =>
    intro seen b n plans c c' r hready _ hst _ _ hrun
    cases hready
    cases hrun
    exact ⟨.nil, .refl c, ⟨fun _ _ _ => rfl, Nat.le_refl _⟩, fun _ _ => List.forall_mem_nil _, hst, rfl, rfl,
      rfl, rfl⟩
  | cons d ds ih =>
    intro seen b n plans c c' r hready hb hst hall hfresh hrun
    have hkept := kept_functionBodies hst.sound hready.planned (fun d _ => keptCases.all.2.2 d)
      (.refl hst.sound) hst.sits hrun
    obtain ⟨hpart, hparts⟩ := List.forall_mem_cons.mp hall
    simp only [blankDecs, List.cons.injEq] at hfresh
    cases hready with
    | dropped hk hd hrest =>
      obtain ⟨r', h₂, rfl⟩ := exists_of_run_dropped hrun
      have hbodies := ih hrest hb hst hparts hfresh.2 h₂
      rw [liveDecs_of_mem hk hd]
      exact ⟨.dropped hbodies.handled, hbodies.tallies, hbodies.alters, hbodies.holds, hbodies.stands,
        hbodies.own, hbodies.behind, hkept.blank, hkept.dropped⟩
    | @function _ _ h plans head body loc id _ link hnot hle hfits hsite hopen hrest =>
      obtain ⟨r₁, c₁, r', h₁, h₂, rfl⟩ := exists_of_run_checkPlanned hrun
      simp only [Dec.blank, Dec.function.injEq] at hfresh
      have hw := walked_functionBody hst.sound hst.sits hfits h₁
      obtain ⟨body', hr₁, htallies, halters, hholds, hframe, hst₁⟩ :=
        body_surveyed hpart hst hfits hsite hopen hfresh.1.2.1 h₁
      have hmem := hrest.frame_mem
      have hrest₁ := hrest.extends hst.sound.rest hst.types_eq htallies.grown hw.scopes.typeNames_eq
        fun f hf hlt => halters.others f (by
          rintro hmem
          rw [List.mem_singleton.mp hmem] at hf
          omega) hlt
      have hlt : h.frame.index < c.frames.frames.size := by
        obtain ⟨_, hfr, _⟩ := hopen
        exact (Array.getElem?_eq_some_iff.mp hfr).1
      have hbodies := ih hrest₁ (Nat.le_trans hlt halters.size_le) hst₁ hparts hfresh.2 h₂
      have hlive : liveDecs ⟨some .function, seen⟩ (r₁.1 :: r'.1) =
          .function head body'.live loc (some h.id) ::
            liveDecs ⟨some .function, head.name.name :: seen⟩ r'.1 := by
        rw [hr₁]
        exact liveDecs_of_not_mem (d := .function head body' loc (some h.id)) rfl hnot
      rw [hlive]
      refine ⟨.function hbodies.handled, ?_, ?_, fun d hd => ?_, ?_, hbodies.own, ?_, hkept.blank,
        hkept.dropped⟩
      · exact (htallies.seq hbodies.tallies).congr (fun t => sitesDecs_function ..) rfl
      · exact halters.trans hbodies.alters
      · have hnot_mem : h.frame ∉ plans.filterMap Plan.frame? := fun hm => by
          have := (hmem _ hm).1
          omega
        have hclosed : c.Later c₁ d := by
          refine ⟨hbodies.tallies.grown.trans hd.grown, hd.linked, fun g hg hlt' => ?_⟩
          have hg' : g ∉ plans.filterMap Plan.frame? := fun hm => by
            have := (hmem _ hm).2
            omega
          rw [hd.closed g (Nat.le_trans hb hg) (Nat.lt_of_lt_of_le hlt' hbodies.alters.size_le),
            hbodies.alters.others g hg' hlt']
        have hsite' : Site.Holds d (.function pl head body'.live (some h.id)) := by
          refine ⟨h.id, h.frame, link, h.params, rfl, hsite.extends (Place.settled hst.sound.rest hst.types_eq)
            (htallies.grown.trans hclosed.grown), ?_⟩
          obtain ⟨fr, hfr, hlevel, hparent, hslots, hlaid⟩ := hframe
          have hlt₁ := (Array.getElem?_eq_some_iff.mp hfr).1
          refine ⟨fr, ?_, hlevel, hparent, hslots, hlaid.grows hclosed.grown.frames⟩
          rw [hd.closed _ hle (Nat.lt_of_lt_of_le hlt₁ hbodies.alters.size_le),
            hbodies.alters.others _ hnot_mem hlt₁, hfr]
        have hnext := hbodies.holds d ⟨hd.grown, hd.linked, fun g hg =>
          hd.closed g (Nat.le_trans (Nat.le_succ_of_le hle) hg)⟩
        rw [sitesDecs_function, headSites]
        simp only [List.forall_mem_append, List.forall_mem_cons] at hnext ⊢
        exact ⟨⟨⟨hsite', holds_typeNames d pl head.mentions⟩, hnext.1⟩, hholds d hclosed, hnext.2⟩
      · have := hbodies.stands
        rwa [typeDecsDecs, ← Nat.add_assoc]
      · exact (behind_of_kind (k := .function) (d := .function head body'.live loc (some h.id)) rfl).trans hbodies.behind

/-! ## A run of functions -/

/-- **A run of functions is surveyed.** -/
theorem surveyed_functionRun {d : Dec} {c₁ : Checker} {r : List Dec × Bool}
    (hk : ∀ e ∈ d :: ds, e.kind = .function) (hst : ctx.Stands pl n c)
    (hparts : ∀ e ∈ d :: ds, e.Parts ExpSurveyed) (hfresh : blankDecs (d :: ds) = d :: ds)
    (hopen : (openRun ctx (d :: ds)).run c = .ok (plans, c₁))
    (hrun : (checkPlanned ctx plans (d :: ds)).run c₁ = .ok (r, c')) :
    RunSurveyed ctx pl n c .function (d :: ds) r.1 c' := by
  have hbind := run_bindHeaders_of_openRun (by rw [hk d List.mem_cons_self]; decide) hopen
  have hst₀ := hst.note (.run d.kind (ds.length + 1))
  have hnames := bindsFunctions_of_openRun hk hst.sound hst.sits hopen
  have htypes : (ctx.place c₁).types = c.typeNames.lookup := congrArg Scopes.lookup hnames.scopes_eq.2
  have hbound := bound_of_run hk hst₀.sound hst₀.sits hst₀.calls htypes rfl rfl hbind
  have hst₁ : ctx.Stands (ctx.place c₁) n c₁ := by
    refine ⟨hbound.declared.sound, hbound.declared.sits, hbound.calls, rfl, ?_⟩
    rw [hnames.sameTypes.namedTypes_eq]
    exact hst₀.count
  have hbodies := bodies_surveyed hbound.ready hbound.alters.size_le hst₁ hparts hfresh hrun
  have hplaced : ctx.place c₁ = pl.bindRun n (liveDecs ⟨some .function, []⟩ r.1) := by
    rw [hbound.placed n _ hbodies.handled, hst₀.stood]
  rw [RunSurveyed, ← hplaced, hbodies.own, hbodies.behind]
  refine ⟨⟨?_, ⟨[], rfl, ?_⟩, fun e he => ?_⟩, hbodies.stands, hbodies.blank, hbodies.dropped⟩
  · exact (((hbound.tallies _ hbodies.handled).seq hbodies.tallies).after (tallies_note c _)).congr (fun _ => rfl)
      (Nat.zero_add _).symm
  · exact ((hbound.alters.trans hbodies.alters).of_new fun f hf => (hbound.ready.frame_mem f hf).1).appends _
  · exact hbodies.holds e ⟨he.grown, he.linked, he.closed⟩

end TigerCheck
