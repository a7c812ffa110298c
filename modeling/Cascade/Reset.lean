import Cascade.Length.Scale
import Cascade.Sheet
import Cascade.Style

/-! # The reset sheet

Rules that take away the differences between the default styles of browsers, to be written before
all other rules. -/

namespace Cascade

open Length (zero full auto)
open Style (Setting)

namespace Reset

/-- A rule of settings. -/
def rule (selector : String) (settings : List Setting) : Rule :=
  { selector, props := .ofSettings settings }

/-- A rule of settings and declarations outside the slots. -/
def ruleWith (selector : String) (settings : List Setting) (custom : List Declaration) : Rule :=
  (rule selector settings).declare custom

/-- The rules for the page and for blocks of text. -/
def document : List Rule :=
  [rule "*,::after,::before,::backdrop,::file-selector-button"
      [.border { width? := some zero, style? := some .solid }, .boxSizing .borderBox,
        .margin zero, .padding zero],
    ruleWith "html,:host" [.fontFamily .sans, .lineHeight ⟨1.5, .number⟩]
      [⟨"-webkit-tap-highlight-color", "transparent"⟩, ⟨"-webkit-text-size-adjust", "100%"⟩,
        ⟨"tab-size", "4"⟩],
    rule "body" [.lineHeight .inherit],
    ruleWith "hr" [.color .inherit, .height zero] [⟨"border-top-width", "1px"⟩],
    rule "abbr:where([title])"
      [.textDecorationLine .underline, .textDecorationStyle .dotted],
    rule "h1,h2,h3,h4,h5,h6" [.fontSize .inherit, .inherit .fontWeight],
    rule "a" [.color .inherit, .inherit .textDecorationLine, .inherit .textDecorationStyle]]

/-- The rules for parts of a text, and for tables. -/
def text : List Rule :=
  [rule "b,strong" [.fontWeight .bolder],
    rule "code,kbd,samp,pre" [.fontFamily .mono, .fontSize ⟨1, .em⟩],
    rule "small" [.fontSize ⟨80, .percent⟩],
    rule "sub,sup"
      [.fontSize ⟨75, .percent⟩, .lineHeight zero, .position .relative,
        .verticalAlign .baseline],
    rule "sub" [.bottom ⟨-0.25, .em⟩],
    rule "sup" [.top ⟨-0.5, .em⟩],
    rule "table"
      [.borderCollapse .collapse, .borderColor .inherit, .textIndent zero]]

/-- The rules for the parts of forms. -/
def controls : List Rule :=
  [ruleWith "button,input,optgroup,select,textarea,::file-selector-button"
      [.backgroundColor .transparent, .color .inherit, .inherit .fontFamily,
        .fontSize .inherit]
      [⟨"letter-spacing", "inherit"⟩],
    rule "input:where(:not([type='button'],[type='reset'],[type='submit'])),select,textarea"
      [.border { width? := some ⟨1, .px⟩, style? := some .solid }],
    rule ("button,input:where([type='button'],[type='reset'],[type='submit'])," ++
        "::file-selector-button")
      [.appearance .button],
    ruleWith ":-moz-focusring" [] [⟨"outline", "auto"⟩],
    ruleWith ":-moz-ui-invalid" [] [⟨"box-shadow", "none"⟩],
    rule "progress" [.verticalAlign .baseline],
    rule "::-webkit-inner-spin-button,::-webkit-outer-spin-button" [.height auto],
    ruleWith "::-webkit-search-decoration" [] [⟨"-webkit-appearance", "none"⟩],
    rule "summary" [.display .listItem],
    rule "ol,ul,menu" [.listStyleType .none, .listStylePosition .inside],
    ruleWith "textarea" [] [⟨"resize", "vertical"⟩],
    rule "::placeholder"
      [.color (.function "color-mix(in srgb, currentColor 50%, transparent)"),
        .opacity 1],
    rule ":disabled" [.cursor .default]]

/-- The rules for pictures and other embedded content, and for what is hidden. -/
def media : List Rule :=
  [rule "img,svg,video,canvas,audio,iframe,embed,object"
      [.display .block, .verticalAlign .middle],
    rule "img,video" [.height auto, .maxWidth full],
    rule "[hidden]" [.set .display (.raw "none !important")]]

/-- The reset sheet. -/
def sheet : Sheet := ⟨document ++ text ++ controls ++ media⟩

end Reset

end Cascade
