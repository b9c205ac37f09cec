namespace TaxonomySet.Vocabulary

def xmlSchema : String := "http://www.w3.org/2001/XMLSchema"
def xlink : String := "http://www.w3.org/1999/xlink"
def xml : String := "http://www.w3.org/XML/1998/namespace"
def link : String := "http://www.xbrl.org/2003/linkbase"
def instanceDocument : String := "http://www.xbrl.org/2003/instance"
def dimensions : String := "http://xbrl.org/2005/xbrldt"
def genericLink : String := "http://xbrl.org/2008/generic"
def genericLabel : String := "http://xbrl.org/2008/label"

def standardLinkRole : String := "http://www.xbrl.org/2003/role/link"
def standardRoles : String := "http://www.xbrl.org/2003/role/"
def labelRole : String := "http://www.xbrl.org/2003/role/label"

def parentChild : String := "http://www.xbrl.org/2003/arcrole/parent-child"
def summationItem : String := "http://www.xbrl.org/2003/arcrole/summation-item"
def generalSpecial : String := "http://www.xbrl.org/2003/arcrole/general-special"
def essenceAlias : String := "http://www.xbrl.org/2003/arcrole/essence-alias"
def similarTuples : String := "http://www.xbrl.org/2003/arcrole/similar-tuples"
def requiresElement : String := "http://www.xbrl.org/2003/arcrole/requires-element"
def conceptLabel : String := "http://www.xbrl.org/2003/arcrole/concept-label"
def conceptReference : String := "http://www.xbrl.org/2003/arcrole/concept-reference"
def factFootnote : String := "http://www.xbrl.org/2003/arcrole/fact-footnote"
def elementLabel : String := "http://xbrl.org/arcrole/2008/element-label"

def all : String := "http://xbrl.org/int/dim/arcrole/all"
def notAll : String := "http://xbrl.org/int/dim/arcrole/notAll"
def hypercubeDimension : String := "http://xbrl.org/int/dim/arcrole/hypercube-dimension"
def dimensionDomain : String := "http://xbrl.org/int/dim/arcrole/dimension-domain"
def domainMember : String := "http://xbrl.org/int/dim/arcrole/domain-member"
def dimensionDefault : String := "http://xbrl.org/int/dim/arcrole/dimension-default"

/-- Roles of the standard namespace need no declaration. -/
def isStandardRole (role : String) : Bool := standardRoles.toList.isPrefixOf role.toList

end TaxonomySet.Vocabulary
