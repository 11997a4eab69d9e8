-- SUMMARY: The form of a header: its module attributes, top-level forms and macros.
import HeaderForms.Declaration.ToForm
import HeaderForms.Header
import HeaderForms.Macro.ToForm

/-!
# Forms of headers

A header becomes `(progn (extend-module () (attribute...)) form... macro...)`. The module extension
is left out when there is no attribute.
-/

namespace HeaderForms.Header

/-- The form that adds attributes to the module. -/
def extension (attributes : List Form) : List Form :=
  if attributes.isEmpty then []
  else [Form.call "extend-module" [Form.nil, .list attributes]]

def formItems (header : Header) (session : Session) : List Form × Session :=
  let (declarations, session) :=
    DeclarationForms.ofDeclarations header.declarations session
  let (macros, session) := header.macros.toForms session
  (extension declarations.attributes ++ declarations.forms ++ macros, session)

def toForm (header : Header) (session : Session) : Form × Session :=
  let (items, session) := header.formItems session
  (Form.call "progn" items, session)

end HeaderForms.Header
