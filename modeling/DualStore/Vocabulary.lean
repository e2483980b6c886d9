/-! The IRIs that have a meaning of their own. -/

namespace DualStore.Vocabulary

def rdfType : String := "http://www.w3.org/1999/02/22-rdf-syntax-ns#type"
def rdfLangString : String := "http://www.w3.org/1999/02/22-rdf-syntax-ns#langString"

def rdfsResource : String := "http://www.w3.org/2000/01/rdf-schema#Resource"

def xsdString : String := "http://www.w3.org/2001/XMLSchema#string"
def xsdBoolean : String := "http://www.w3.org/2001/XMLSchema#boolean"
def xsdInteger : String := "http://www.w3.org/2001/XMLSchema#integer"
def xsdDecimal : String := "http://www.w3.org/2001/XMLSchema#decimal"
def xsdDouble : String := "http://www.w3.org/2001/XMLSchema#double"

/-- The graph term that stands for the unnamed default graph. -/
def defaultGraph : String := "urn:quadsync:default-graph"

/-- Blank nodes are shown to the index as IRIs that start like this. -/
def skolemPrefix : String := "urn:quadsync:bnode:"

end DualStore.Vocabulary
